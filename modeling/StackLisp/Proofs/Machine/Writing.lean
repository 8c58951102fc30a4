import StackLisp.Proofs.Machine.Aligned
import StackLisp.Proofs.Meaning.Instruction
import StackLisp.Proofs.Store.Writing

/-!
The instructions that write a variable. A definition writes in the innermost scope, an assignment where
the symbol is found; either writes that one binding or nothing at all, and everyone who shares the scope
sees what was written.
-/

namespace StackLisp

def World.Placed (world : World) : Prop :=
  ∃ ref ∈ world.env.scopes.top?, ref < world.store.scopes.size

instance : DecidablePred World.Placed := fun world =>
  decidable_of_iff ((world.env.scopes.top?.any fun ref => decide (ref < world.store.scopes.size)) = true)
    (by rw [World.Placed]; cases world.env.scopes.top? <;> simp)

def World.resolve (world : World) (symbol : Symbol) : Except Error ScopeRef :=
  match world.store.findBinding world.env.scopes.elements world.env.function.captures symbol.id with
  | some (_, ref) => .ok ref
  | none => .error (.undefined symbol.name)

namespace Machine

/-- A symbol is written in a scope: the value is off the stack, one binding is changed, whoever finds
the symbol in that scope sees the value, and so does an instruction that gets it next. -/
structure Wrote (world : World) (symbol : Symbol) (ref : ScopeRef) (value : Value) (after : World) :
    Prop where
  store : world.store.Rebinds ref symbol.id value after.store
  seen : ∀ scopes captures,
    world.store.SeenFrom ref symbol.id value after.store scopes captures
  popped : world.env.data.elements = value :: after.env.data.elements
  rest : after = { world with
    store := after.store
    env := { world.env with data := after.env.data, pc := after.env.pc } }
  got : ∀ host perform, ∃ last, execute host perform (.get symbol) after = .ok () last ∧
    last.store = after.store ∧ last.env.data.elements = value :: after.env.data.elements

inductive WriteEnds (world : World) (symbol : Symbol) (place : Except Error ScopeRef) :
    EStateM.Result Stop World Unit → Prop
  | noValue : world.env.data.elements = [] →
    WriteEnds world symbol place (.error (.error .stackUnderflow) world)
  | noPlace {value rest cause after} : world.env.data.elements = value :: rest →
    place = .error cause → after.store = world.store →
    WriteEnds world symbol place (.error (.error cause) after)
  | refused {value rest ref cause after} : world.env.data.elements = value :: rest →
    place = .ok ref → world.store.checkBind ref symbol value = .error cause →
    after.store = world.store → WriteEnds world symbol place (.error (.error cause) after)
  | wrote {value ref after} : place = .ok ref →
    world.store.checkBind ref symbol value = .ok () → Wrote world symbol ref value after →
    WriteEnds world symbol place (.ok () after)

section Execute

variable {host : Host} {perform : Perform} {world : World} {symbol : Symbol}

theorem pop_nothing (noData : world.env.data.elements = []) :
    pop world = .error (.error .stackUnderflow) world := by
  obtain ⟨config, store, ⟨⟨elements, size, sizeEq⟩, scopes, calls, function, pc, base, nesting,
    reader⟩, journal⟩ := world
  dsimp only at noData
  subst noData
  rfl

theorem execute_get_apply {value : Value} {store : Store}
    (looked : world.store.lookup world.env.scopes.elements world.env.function.captures symbol =
      (.ok value, store)) :
    ∃ last, execute host perform (.get symbol) world = .ok () last ∧ last.store = store ∧
      last.env.data.elements = value :: world.env.data.elements := by
  rw [execute, bind_apply, lookup_apply looked]
  exact ⟨_, rfl, rfl, rfl⟩

theorem execute_get_fails {cause : Error} {store : Store}
    (looked : world.store.lookup world.env.scopes.elements world.env.function.captures symbol =
      (.error cause, store)) :
    execute host perform (.get symbol) world = .error (.error cause) { world with store } := by
  rw [execute, bind_apply, lookup_apply looked]
  rfl

end Execute

section Written

variable {world : World} {symbol : Symbol} {ref : ScopeRef} {value : Value} {rest : List Value}
  {place : Except Error ScopeRef} {result : EStateM.Result Stop World Unit}

theorem resolve_eq_ok : world.resolve symbol = .ok ref ↔ ∃ old,
    world.store.findBinding world.env.scopes.elements world.env.function.captures symbol.id =
      some (old, ref) := by
  rw [World.resolve]
  cases world.store.findBinding world.env.scopes.elements world.env.function.captures symbol.id with
  | none => simp
  | some binding =>
      obtain ⟨old, there⟩ := binding
      simp

theorem execute_get_plain {old : Value} (plain : symbol.isPath = false)
    (found : world.store.findBinding world.env.scopes.elements world.env.function.captures symbol.id =
      some (old, ref)) (host : Host) (perform : Perform) :
    ∃ last, execute host perform (.get symbol) world = .ok () last ∧ last.store = world.store ∧
      last.env.data.elements = old :: world.env.data.elements := by
  apply execute_get_apply
  rw [Store.lookup_plain _ _ _ plain, Store.lookupPlain, found]

theorem writeEnds_bind (plain : symbol.isPath = false)
    (top : world.env.data.elements = value :: rest) (known : place = .ok ref)
    (inside : ref < world.store.scopes.size)
    (found : (world.store.define ref symbol value).findBinding world.env.scopes.elements
      world.env.function.captures symbol.id = some (value, ref))
    (ended : ∀ bound store, world.store.bind ref symbol value = (bound, store) →
      result = (do ofExcept bound; advance : Machine Unit) { dropped world 1 with store }) :
    WriteEnds world symbol place result := by
  rw [Store.bind] at ended
  cases allowed : world.store.checkBind ref symbol value with
  | ok done =>
      rw [allowed] at ended
      rw [ended _ _ rfl]
      have rebinds := Store.rebinds_define inside symbol value
      have popped : world.env.data.elements = value :: (dropped world 1).env.data.elements := by
        rw [top]
        exact congrArg (fun elements => value :: List.drop 1 elements) top.symm
      refine .wrote known allowed ⟨rebinds, rebinds.seenFrom, popped, rfl, ?_⟩
      exact execute_get_plain plain found
  | error cause =>
      rw [allowed] at ended
      rw [ended _ _ rfl]
      exact .refused top known allowed rfl

theorem findBinding_innermost {store : Store} {scopes : List ScopeRef} {captures : List Capture}
    {id : Nat} (innermost : scopes.head? = some ref) (bound : (store.scope ref).lookup id = some value) :
    store.findBinding scopes captures id = some (value, ref) := by
  obtain ⟨outer, rfl⟩ := List.head?_eq_some_iff.mp innermost
  have first : ∃ later, store.runningScopes (ref :: outer) = ref :: later := by
    rw [Store.runningScopes]
    split <;> exact ⟨_, rfl⟩
  obtain ⟨later, first⟩ := first
  rw [Store.findBinding_eq, Store.searched, first, List.cons_append, List.cons_append,
    Store.findAmong_cons, bound]
  rfl

theorem put_ends (host : Host) (perform : Perform) (plain : symbol.isPath = false)
    (placed : world.Placed) :
    WriteEnds world symbol (.ok (innermostScope world.env))
      (execute host perform (.put symbol) world) := by
  obtain ⟨ref, innermost, inside⟩ := placed
  have here : innermostScope world.env = ref := by rw [innermostScope, innermost, Option.getD_some]
  rw [← here] at innermost inside
  cases top : world.env.data.elements with
  | nil =>
      rw [execute, bind_apply, pop_nothing top]
      exact .noValue top
  | cons value rest =>
      have bound := (Store.rebinds_define inside symbol value).bound
      exact writeEnds_bind plain top rfl inside (findBinding_innermost innermost bound)
        fun _ _ changed => execute_put_apply top changed

theorem set_ends (host : Host) (perform : Perform) (plain : symbol.isPath = false) :
    WriteEnds world symbol (world.resolve symbol) (execute host perform (.set symbol) world) := by
  cases top : world.env.data.elements with
  | nil =>
      rw [execute, bind_apply, pop_nothing top]
      exact .noValue top
  | cons value rest =>
      cases found : world.store.findBinding world.env.scopes.elements world.env.function.captures
          symbol.id with
      | none =>
          have unplaced : world.resolve symbol = .error (.undefined symbol.name) := by
            rw [World.resolve, found]
          rw [execute_set_apply top (Store.assign_unbound plain found value)]
          exact .noPlace top unplaced rfl
      | some binding =>
          obtain ⟨old, ref⟩ := binding
          have known : world.resolve symbol = .ok ref := resolve_eq_ok.mpr ⟨old, found⟩
          have inside := Store.lt_of_lookup (Store.lookup_of_findBinding found)
          have seen := (Store.rebinds_define inside symbol value).seenFrom
            world.env.scopes.elements world.env.function.captures
          have foundAgain := seen.here.resolve_right fun elsewhere => elsewhere.2 old found
          exact writeEnds_bind plain top known inside foundAgain fun _ _ changed =>
            execute_set_apply top ((Store.assign_bind plain found value).trans changed)

theorem set_creates_nothing {host : Host} {perform : Perform} {after : World}
    (plain : symbol.isPath = false) (done : execute host perform (.set symbol) world = .ok () after)
    (seen : ScopeRef) (id : Nat) :
    ((after.store.scope seen).lookup id).isSome = ((world.store.scope seen).lookup id).isSome := by
  have ends : WriteEnds world symbol (world.resolve symbol)
      (execute host perform (.set symbol) world) := set_ends host perform plain
  rw [done] at ends
  cases ends with
  | @wrote value ref _ known _ written =>
      obtain ⟨old, found⟩ := resolve_eq_ok.mp known
      have bound := Store.lookup_of_findBinding found
      exact written.store.isSome_lookup (by simp [bound]) seen id

end Written

theorem placed_of_grounded {world : World} (holds : Stage.grounded.holds world) : world.Placed := by
  obtain ⟨ready, grounded⟩ := holds
  obtain ⟨own, scopes, new⟩ := grounded.stacked.own
  have known : ∀ ref ∈ own ++ [Store.global], ref < world.store.scopes.size := by
    refine List.forall_mem_append.mpr ⟨fun ref member => (new ref member).2, fun ref member => ?_⟩
    obtain rfl := List.mem_singleton.mp member
    exact grounded.global.known
  obtain ⟨ref, outer, elements⟩ : ∃ ref outer, world.env.scopes.elements = ref :: outer := by
    rw [scopes]
    cases own <;> exact ⟨_, _, rfl⟩
  refine ⟨ref, by simp [Stack.top?, elements], known ref ?_⟩
  rw [← scopes, elements]
  exact List.mem_cons_self ..

theorem placed_spec (host : Host) (fuel : Nat) :
    RunSpec .grounded (watchedPerform World.Placed host fuel) (perform host fuel) :=
  watchedPerform_spec (fun _ _ _ based running => placed_of_grounded (running.holds based)) host fuel

end Machine

namespace Interpreter

open Machine

/-- A definition writes one binding, in the innermost scope, and an assignment one that is there
already, in the scope in which the symbol is found; or nothing is written. Interpreters always have an
innermost scope. -/
theorem put_set_write (host : Host) (perform : Perform) {symbol : Symbol}
    (plain : symbol.isPath = false) {world : World} (placed : world.Placed) :
    WriteEnds world symbol (.ok (innermostScope world.env))
        (execute host perform (.put symbol) world) ∧
      WriteEnds world symbol (world.resolve symbol) (execute host perform (.set symbol) world) ∧
      (∀ after, execute host perform (.set symbol) world = .ok () after → ∀ seen id,
        ((after.store.scope seen).lookup id).isSome =
          ((world.store.scope seen).lookup id).isSome) ∧
      ∀ config start, Reached host config start → start.Placed ∧
        (∀ fuel text, Unstopped (watchedEvalText World.Placed host fuel text)
          (evalText host fuel text) start) ∧
        ∀ fuel function arguments,
          Unstopped (watchedPerform World.Placed host fuel (.apply function arguments))
            (apply host fuel function arguments) start := by
  refine ⟨put_ends host perform plain placed, set_ends host perform plain,
    fun after done => set_creates_nothing plain done, fun config start reached => ?_⟩
  have holds := reached.grounded
  refine ⟨placed_of_grounded holds, fun fuel text => ?_, fun fuel function arguments => ?_⟩
  · exact evalText_watched (placed_spec host fuel) text (fun _ holds => holds) holds
  · exact ((placed_spec host fuel).apply function arguments start holds).unstopped

def leftInCall : World :=
  let left := lastState (evalText .none 30 "(def x 1) (let [x 2] (map (fn [y] z) [1]))") (fresh default)
  { left with env := { left.env with data := Stack.empty.push (.int 3) } }

theorem leftInCall_stands :
    leftInCall.Placed ∧ innermostScope leftInCall.env = 2 ∧
      leftInCall.store.findBinding leftInCall.env.scopes.elements leftInCall.env.function.captures
        51 = some (.int 1, Store.global) ∧
      (leftInCall.store.scope 1).lookup 51 = some (.int 2) := by
  decide +kernel

theorem put_set_write_called :
    let symbol : Symbol := ⟨"x", 51, false⟩
    let reading := perform .none 0
    (leftInCall.store.scope 1).lookup 51 = some (.int 2) ∧
      WriteEnds leftInCall symbol (.ok 2) (execute .none reading (.put symbol) leftInCall) ∧
      WriteEnds leftInCall symbol (.ok Store.global)
        (execute .none reading (.set symbol) leftInCall) := by
  intro symbol reading
  obtain ⟨placed, innermost, found, shadowed⟩ := leftInCall_stands
  have resolved : leftInCall.resolve symbol = .ok Store.global := resolve_eq_ok.mpr ⟨_, found⟩
  obtain ⟨puts, sets, _⟩ := put_set_write .none reading (by decide : symbol.isPath = false) placed
  rw [innermost] at puts
  rw [resolved] at sets
  exact ⟨shadowed, puts, sets⟩

end Interpreter

end StackLisp
