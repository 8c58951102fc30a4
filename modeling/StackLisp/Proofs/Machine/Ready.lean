import StackLisp.Proofs.Machine.Tame

/-!
Stores whose functions all have generated code or are standard ones, and states in which a run may
start.
-/

namespace StackLisp

def Function.Sound (function : Function) : Prop :=
  function.Generated ∨
    ∃ native arity builder, function.body = .native (.standard native) arity builder

def Store.Sound (store : Store) : Prop := ∀ function ∈ store.functions, function.Sound

/-- A state in which a run may start: the base of the run that is under way lies within its calls,
and some scope is open. -/
structure World.Ready (world : World) : Prop where
  sound : world.store.Sound
  base : world.env.base ≤ world.env.calls.size
  hasScope : 0 < world.env.scopes.size

/-- A later store: every function and every scope that there was stands where it stood, the scope as
of the kind that it was. -/
structure Store.Lasts (store later : Store) : Prop where
  functions : store.functions.toList <+: later.functions.toList
  kinds : store.kinds <+: later.kinds

structure Store.Ages (store later : Store) : Prop extends store.Lasts later where
  names : store.names <+: later.names
  types : store.KeepsTypes later

structure World.Later (world after : World) : Prop where
  config : after.config = world.config
  ages : world.store.Ages after.store

theorem World.Later.lasts {world after : World} (later : world.Later after) :
    world.store.Lasts after.store := later.ages.toLasts

structure World.Steady (world after : World) : Prop where
  later : world.Later after
  env : after.env = world.env
  sound : after.store.Sound

structure Env.SameStacks (env after : Env) : Prop where
  data : after.data = env.data
  scopes : after.scopes = env.scopes
  calls : after.calls = env.calls
  base : after.base = env.base
  nesting : after.nesting = env.nesting
  reader : after.reader = env.reader

theorem Store.Lasts.refl (store : Store) : store.Lasts store :=
  ⟨List.prefix_rfl, List.prefix_rfl⟩

theorem Store.Lasts.trans {store between later : Store} (first : store.Lasts between)
    (second : between.Lasts later) : store.Lasts later :=
  ⟨first.functions.trans second.functions, first.kinds.trans second.kinds⟩

theorem Store.Ages.refl (store : Store) : store.Ages store := 
  ⟨.refl store, List.prefix_rfl, .refl store⟩

theorem Store.Ages.trans {store between later : Store} (first : store.Ages between)
    (second : between.Ages later) : store.Ages later :=
  ⟨first.toLasts.trans second.toLasts, first.names.trans second.names,
    first.types.trans second.types⟩

theorem Store.Grows.ages {store later : Store} (grows : store.Grows later) : store.Ages later :=
  ⟨⟨grows.added, grows.kinds⟩, grows.names, grows.types⟩

theorem Store.Keeps.ages {store later : Store} (keeps : store.Keeps later) : store.Ages later :=
  keeps.grows.ages

theorem Store.newFunction_lasts (store : Store) (function : Function) :
    store.Lasts (store.newFunction function).2 :=
  ⟨by simp [newFunction], List.prefix_rfl⟩

theorem Store.newFunction_ages (store : Store) (function : Function) :
    store.Ages (store.newFunction function).2 :=
  ⟨store.newFunction_lasts function, List.prefix_rfl, .of_eq rfl rfl⟩

theorem Store.isCall_eq (store : Store) (ref : ScopeRef) :
    (store.scope ref).isCall = store.kinds.getD ref false := by
  rw [Store.scope, Store.kinds, Array.getD_eq_getD_getElem?, List.getD_eq_getElem?_getD,
    List.getElem?_map, Array.getElem?_toList]
  cases store.scopes[ref]? <;> rfl

theorem Store.name_eq (store : Store) (ref : ScopeRef) (known : ref < store.scopes.size) :
    store.names[ref]? = some (store.scope ref).name := by
  simp [Store.scope, Store.names, known]

theorem Store.kinds_length (store : Store) : store.kinds.length = store.scopes.size := by
  simp [Store.kinds]

theorem Store.Lasts.isCall_eq {store later : Store} (lasts : store.Lasts later) {ref : ScopeRef}
    (known : ref < store.scopes.size) : (later.scope ref).isCall = (store.scope ref).isCall := by
  obtain ⟨_, added, kinds⟩ := lasts
  rw [← store.kinds_length] at known
  rw [later.isCall_eq, store.isCall_eq, ← kinds, List.getD_eq_getElem?_getD,
    List.getD_eq_getElem?_getD, List.getElem?_append_left known]

theorem Store.Lasts.scopes_le {store later : Store} (lasts : store.Lasts later) :
    store.scopes.size ≤ later.scopes.size := by
  rw [← store.kinds_length, ← later.kinds_length]
  exact lasts.kinds.length_le

theorem Store.Ages.name_eq {store later : Store} (ages : store.Ages later) {ref : ScopeRef}
    (known : ref < store.scopes.size) : (later.scope ref).name = (store.scope ref).name := by
  have before := store.name_eq ref known
  have behind := later.name_eq ref (Nat.lt_of_lt_of_le known ages.scopes_le)
  obtain ⟨added, names⟩ := ages.names
  rw [← names, List.getElem?_append_left (List.getElem?_eq_some_iff.mp before).1, before] at behind
  exact (Option.some.inj behind).symm

structure Store.Opened (store : Store) (call : Bool) (since ref : ScopeRef) : Prop where
  since : since ≤ ref
  known : ref < store.scopes.size
  isCall : (store.scope ref).isCall = call

theorem Store.Opened.lasts {store later : Store} {call : Bool} {since ref : ScopeRef}
    (opened : store.Opened call since ref) (lasts : store.Lasts later) :
    later.Opened call since ref := by
  refine ⟨opened.since, Nat.lt_of_lt_of_le opened.known lasts.scopes_le, ?_⟩
  rw [lasts.isCall_eq opened.known]
  exact opened.isCall

/-- The scope of a call that is under way, above those of its caller: the frame of the call knows its
place and its name. -/
structure Store.Boundary (store : Store) (since ref : ScopeRef) (frame : CallFrame)
    (outer : List ScopeRef) : Prop where
  opened : store.Opened true since ref
  name : (store.scope ref).name = frame.callee
  depth : frame.scopeDepth = outer.length

theorem Store.Boundary.ages {store later : Store} {since ref : ScopeRef} {frame : CallFrame}
    {outer : List ScopeRef} (boundary : store.Boundary since ref frame outer)
    (ages : store.Ages later) : later.Boundary since ref frame outer := by
  refine ⟨boundary.opened.lasts ages.toLasts, ?_, boundary.depth⟩
  rw [ages.name_eq boundary.opened.known]
  exact boundary.name

theorem Store.Sound.grows {store later : Store} (sound : store.Sound) (grows : store.Grows later) :
    later.Sound := by
  obtain ⟨⟨added, functions, generated⟩, _, _⟩ := grows
  intro function member
  rw [functions, Array.mem_append] at member
  rcases member with earlier | new
  · exact sound function earlier
  · exact .inl (generated function (by simpa using new))

theorem Store.Sound.newFunction {store : Store} (sound : store.Sound) {function : Function}
    (functionSound : function.Sound) : (store.newFunction function).2.Sound := by
  intro other member
  rcases Array.mem_push.mp member with earlier | rfl
  · exact sound other earlier
  · exact functionSound

theorem Store.Sound.function {store : Store} (sound : store.Sound) (ref : FunctionRef) :
    (store.function ref).Sound := by
  unfold Store.function
  rw [Array.getD_eq_getD_getElem?]
  cases found : store.functions[ref]? with
  | none => exact .inl ⟨[], none, .constant .nil, [], rfl, rfl⟩
  | some function => exact sound function (Array.mem_of_getElem? found)

theorem Function.Sound.closeOver {function : Function} (sound : function.Sound)
    (scopes : List ScopeRef) (maker : Function) : (function.closeOver scopes maker).Sound := by
  rcases sound with ⟨parameters, rest, body, captures, closed, made⟩ | ⟨native, arity, builder, made⟩
  · refine .inl ⟨parameters, rest, body, ⟨scopes, maker.name⟩ :: maker.captures, closed, ?_⟩
    simp only [Function.closeOver, made]
  · refine .inr ⟨native, arity, builder, ?_⟩
    simp only [Function.closeOver, made]

theorem World.Later.refl (world : World) : world.Later world := ⟨rfl, .refl world.store⟩

theorem World.Later.trans {world between after : World} (first : world.Later between)
    (second : between.Later after) : world.Later after :=
  ⟨second.config.trans first.config, first.ages.trans second.ages⟩

theorem World.Steady.ready {world after : World} (steady : world.Steady after)
    (ready : world.Ready) : after.Ready := by
  refine ⟨steady.sound, ?_, ?_⟩
  · rw [steady.env]
    exact ready.base
  · rw [steady.env]
    exact ready.hasScope

theorem Env.SameStacks.ready {world after : World} (same : world.env.SameStacks after.env)
    (ready : world.Ready) (sound : after.store.Sound) : after.Ready := by
  refine ⟨sound, ?_, ?_⟩
  · rw [same.base, same.calls]
    exact ready.base
  · rw [same.scopes]
    exact ready.hasScope

theorem World.Steady.trans {world between after : World} (first : world.Steady between)
    (second : between.Steady after) : world.Steady after :=
  ⟨first.later.trans second.later, second.env.trans first.env, second.sound⟩

end StackLisp
