import StackLisp.Proofs.Form.Acting
import StackLisp.Proofs.Machine.Spared
import StackLisp.Proofs.Meaning.Calling
import StackLisp.Proofs.Native.Acting

/-!
What becomes of a state, whatever code is executed in it: one small move after the other. The code may
be of any making, so nothing is known of the values on the stack and of the places that jumps lead to;
what is known is how scopes and calls come and go, and how runs are nested.
-/

namespace StackLisp

inductive World.Becomes (writes : Store.Writes) : World → World → Prop
  | refl {world : World} : Becomes writes world world
  | trans {world between after : World} :
    Becomes writes world between → Becomes writes between after → Becomes writes world after
  | stored {world : World} {store : Store} :
    world.store.Develops writes store → Becomes writes world { world with store }
  | told {world : World} (journal : Journal) : Becomes writes world { world with journal }
  | placed {world : World} (data : Stack Value) (function : Function) (pc : Option Nat) :
    Becomes writes world { world with env := { world.env with data, function, pc } }
  | heard {world : World} {reader : Option Reader} :
    (∀ next, reader = some next → next.stopped = (world.env.reader.getD .start).stopped) →
    Becomes writes world (world.reading reader)
  | opened {world : World} (ref : ScopeRef) :
    Becomes writes world { world with env := { world.env with
      scopes := world.env.scopes.push ref } }
  | closed {world : World} : 1 < world.env.scopes.size →
    Becomes writes world { world with env := { world.env with
      scopes := world.env.scopes.drop 1 } }
  | entered {world : World} {frame : CallFrame} (ref : ScopeRef) :
    world.env.calls.size < world.config.maxCallDepth → frame.scopeDepth = world.env.scopes.size →
    Becomes writes world { world with env := { world.env with
      calls := world.env.calls.push frame
      scopes := world.env.scopes.push ref } }
  | returned {world : World} {frame : CallFrame} {calls : Stack CallFrame} :
    world.env.calls.pop? = some (frame, calls) →
    Becomes writes world { world with env := { world.env with
      calls
      scopes := world.env.scopes.truncate frame.scopeDepth } }
  | cleared {world : World} : Becomes writes world { world with env := world.env.clear }
  | inside {world after : World} (function : Function) :
    world.env.nesting < world.config.maxNesting →
    Becomes writes (Machine.inner function world) after →
    Becomes writes world (Machine.resumed world after)
  | elsewhere {world after : World} {nesting : Nat} : nesting ≤ world.config.maxNesting →
    Becomes writes { world with env := { Env.fresh with nesting } } after →
    Becomes writes world { after with env := world.env }
  | aside {world after : World} : Becomes writes (world.reading none) after →
    Becomes writes world { after with env := world.env }

theorem World.Becomes.develops {writes : Store.Writes} {world after : World}
    (becomes : world.Becomes writes after) : world.store.Develops writes after.store := by
  induction becomes with
  | trans _ _ ihFirst ihSecond => exact ihFirst.trans ihSecond
  | stored develops => exact develops
  | inside _ _ _ ih => exact ih
  | elsewhere _ _ ih => exact ih
  | aside _ ih => exact ih
  | _ => exact .refl

namespace Store

theorem define_newScope (store : Store) (scope : Scope) (symbol : Symbol) (value : Value) :
    (store.newScope scope).2.define store.scopes.size symbol value =
      (store.newScope (scope.insert symbol.id value)).2 := by
  have same : (store.scopes.push scope).modify store.scopes.size
      (fun scope => scope.insert symbol.id value) =
        store.scopes.push (scope.insert symbol.id value) := by
    apply Array.ext_getElem?
    intro place
    rw [Array.getElem?_modify, Array.getElem?_push, Array.getElem?_push]
    by_cases last : place = store.scopes.size
    · simp [last]
    · simp [last, Ne.symm last]
  simp only [define, newScope, same]

theorem bindEach_newScope (store : Store) (scope : Scope) (values : List (Symbol × Value)) :
    ∃ other, ((store.newScope scope).2.bindEach store.scopes.size values).2 =
      (store.newScope other).2 := by
  induction values generalizing scope with
  | nil => exact ⟨scope, rfl⟩
  | cons first later ih =>
      obtain ⟨symbol, value⟩ := first
      cases checked : (store.newScope scope).2.checkBind store.scopes.size symbol value with
      | ok _ =>
          simp only [bindEach, bind, checked, define_newScope]
          exact ih _
      | error cause =>
          simp only [bindEach, bind, checked]
          exact ⟨scope, rfl⟩

theorem develops_callScope {writes : Writes} (store : Store) (name : String)
    (parameters : List Parameter) (rest : Option Symbol) (arguments : List Value) :
    store.Develops writes (store.callScope name parameters rest arguments).2 := by
  have bound (base : Store) (values : List (Symbol × Value)) : base.Develops writes
      ((base.newScope (.empty name true)).2.bindEach (base.newScope (.empty name true)).1
        values).2 := by
    obtain ⟨scope, same⟩ := base.bindEach_newScope (.empty name true) values
    exact same ▸ base.develops_newScope scope
  unfold callScope
  cases bindArguments store name parameters rest arguments with
  | error cause => exact .refl
  | ok arranged =>
      cases rest with
      | none =>
          have made := bound store arranged.values
          dsimp only
          split
          next reached =>
            rw [reached] at made
            exact made
          next reached =>
            rw [reached] at made
            exact made
      | some symbol =>
          have listed : store.Develops writes (store.newList arranged.surplus).2 :=
            store.develops_newList _
          have made := listed.trans (bound (store.newList arranged.surplus).2
            (arranged.values ++ [(symbol, (store.newList arranged.surplus).1)]))
          dsimp only
          split
          next reached =>
            rw [reached] at made
            exact made
          next reached =>
            rw [reached] at made
            exact made

end Store

def Host.Acts (writes : Store.Writes) (hears : Prop) (host : Host) : Prop :=
  ∀ key name arguments, Machine.Acts writes hears fun perform => host.call key perform name arguments

namespace Machine

/-- What a computation leaves comes about by such moves, whatever comes of it. -/
def Behaves (writes : Store.Writes) {α : Type} (body : Machine α) : Prop :=
  ∀ world : World, world.Becomes writes (lastState body world)

section Behaves

variable {writes : Store.Writes} {hears : Prop} {α β : Type}

theorem becomes_bind {body : Machine α} {later : α → Machine β} {world : World}
    (first : world.Becomes writes (lastState body world))
    (second : ∀ value after, body world = .ok value after →
      after.Becomes writes (lastState (later value) after)) :
    world.Becomes writes (lastState (body >>= later) world) := by
  rw [lastState, bind_apply]
  rw [lastState] at first
  cases ran : body world with
  | ok value after =>
      rw [ran] at first
      exact first.trans (second value after ran)
  | error stop after =>
      rw [ran] at first
      exact first

theorem Behaves.bind {body : Machine α} {later : α → Machine β} (first : Behaves writes body)
    (second : ∀ value, Behaves writes (later value)) : Behaves writes (body >>= later) :=
  fun world => becomes_bind (first world) fun value after _ => second value after

theorem becomes_placed {world : World} {env : Env}
    (same : env = { world.env with data := env.data, function := env.function, pc := env.pc }) :
    world.Becomes writes { world with env } := by
  rw [same]
  exact .placed env.data env.function env.pc

theorem behaves_log (level : Level) (message : Unit → String) :
    Behaves writes (log level message) := by
  intro world
  obtain ⟨journal, logged⟩ := log_apply level message world
  rw [lastState, logged]
  exact .told journal

theorem behaves_observe (event : Event) (values : List Value) :
    Behaves writes (observe event values) := by
  intro world
  obtain ⟨journal, observed⟩ := observe_apply event values world
  rw [lastState, observed]
  exact .told journal

theorem lastState_attempt (body : Machine α) (world : World) :
    lastState (attempt body) world = lastState body world := by
  simp only [lastState, attempt]
  cases body world with
  | ok value after => rfl
  | error stop after => cases stop <;> rfl

theorem becomes_tryOnStore {change : Store → Except Error α × Store} {world : World}
    (develops : world.store.Develops writes (change world.store).2) :
    world.Becomes writes (lastState (tryOnStore change) world) := by
  refine becomes_bind (.stored develops) fun result after _ => ?_
  cases result with
  | ok value => exact .refl
  | error cause => exact .refl

theorem becomes_inNested {body : Machine α} (behaves : Behaves writes body) :
    Behaves writes (inNested body) := by
  intro world
  by_cases deep : world.config.maxNesting ≤ world.env.nesting
  · rw [lastState, inNested, bind_apply, checkNesting_refuses deep]
    exact .refl
  · have room := Nat.lt_of_not_le deep
    obtain ⟨journal, logged⟩ := log_apply .debug (fun _ => "duplicating environment") world
    rw [inNested, bind_last (checkNesting_passes room), logDuplicate, bind_last logged,
      bind_last (currentEnv_apply _), inEnv_last]
    exact (World.Becomes.told journal).trans (.elsewhere room (behaves _))

theorem Acts.behaves {body : Perform → Machine α} (acts : Acts writes hears body)
    {perform : Perform} (serves : ∀ request, Behaves writes (perform request)) :
    Behaves writes (body perform) := by
  induction acts with
  | result | failure | outOfFuel | look => exact fun _ => .refl
  | change develops => exact fun world => .stored (develops world.store)
  | note => exact fun _ => .told _
  | andThen _ _ ihFirst ihLater => exact ihFirst.bind ihLater
  | attempted _ ih =>
      intro world
      rw [lastState_attempt]
      exact ih world
  | request asked => exact serves asked
  | nested _ ih => exact becomes_inNested ih
  | apart _ ih =>
      intro world
      rw [inEnv_last]
      exact .elsewhere (Nat.zero_le _) (ih _)
  | copied _ ih =>
      intro world
      rw [bind_last (currentEnv_apply world), inEnv_last]
      exact .aside (ih _)
  | cleared => exact fun _ => .cleared
  | exchange _ grown running =>
      intro world
      have read : world.store.Develops writes _ :=
        (Store.Change.named (grown (world.env.reader.getD .start) world.store.symbols)).develops
      refine (World.Becomes.stored read).trans (.heard fun next same => ?_)
      cases same
      exact running _ _
  | stopped => exact fun _ => .heard fun _ same => by cases same

theorem Acts.behavesAlone {body : Machine α} (acts : Acts writes False fun _ => body) :
    Behaves writes body := by
  have idle : ∀ request, Behaves writes ((fun _ => exhausted : Perform) request) :=
    fun _ _ => .refl
  exact acts.behaves idle

end Behaves

section Steps

variable {writes : Store.Writes} {hears : Prop} {host : Host} {perform : Perform}

def Permitted (writes : Store.Writes) (world : World) : Instr → Prop
  | .put symbol => ∀ value data, world.env.data.pop? = some (value, data) →
    writes world.store (innermostScope world.env) symbol value
  | .set symbol => ∀ value data, world.env.data.pop? = some (value, data) →
    world.store.Assigns writes world.env.scopes.elements world.env.function.captures symbol value
  | _ => True

instance (writes : Store.Writes)
    [∀ store ref symbol value, Decidable (writes store ref symbol value)] (world : World)
    (instr : Instr) : Decidable (Permitted writes world instr) :=
  match instr with
  | .put symbol => decidable_of_iff
    (∀ taken, world.env.data.pop? = some taken →
      writes world.store (innermostScope world.env) symbol taken.1)
    ⟨fun held value data popped => held (value, data) popped,
      fun held taken popped => held taken.1 taken.2 popped⟩
  | .set symbol => decidable_of_iff
    (∀ taken, world.env.data.pop? = some taken → world.store.Assigns writes
      world.env.scopes.elements world.env.function.captures symbol taken.1)
    ⟨fun held value data popped => held (value, data) popped,
      fun held taken popped => held taken.1 taken.2 popped⟩
  | .push _ | .pop | .dup | .get _ | .call _ _ | .dispatch _ | .jump _ | .branch _ _ | .ret
  | .closure _ | .openScope | .closeScope | .leave _ => isTrue trivial

theorem behaves_push (value : Value) : Behaves writes (do push value; advance) :=
  fun _ => becomes_placed rfl

theorem behaves_pop : Behaves writes pop := by
  refine Behaves.bind (fun world => ?_) fun popped => ?_
  · rw [lastState, onEnv_apply]
    cases world.env.data.pop? with
    | some taken => exact becomes_placed rfl
    | none => exact .refl
  · cases popped with
    | some value => exact fun _ => .refl
    | none => exact fun _ => .refl

theorem pop_of_some {world : World} {value : Value} {data : Stack Value}
    (popped : world.env.data.pop? = some (value, data)) :
    pop world = .ok value { world with env := { world.env with data } } := by
  simp only [pop, bind_apply, onEnv_apply, popped]
  rfl

theorem becomes_taking {α : Type} {later : Value → Machine α} {world : World}
    (taking : ∀ value data, world.env.data.pop? = some (value, data) →
      World.Becomes writes { world with env := { world.env with data } }
        (lastState (later value) { world with env := { world.env with data } })) :
    world.Becomes writes (lastState (pop >>= later) world) := by
  refine becomes_bind (behaves_pop world) fun value after ran => ?_
  cases popped : world.env.data.pop? with
  | none =>
      simp only [pop, bind_apply, onEnv_apply, popped] at ran
      cases ran
  | some taken =>
      rw [pop_of_some popped] at ran
      cases ran
      exact taking _ _ popped

theorem behaves_popMany (count : Nat) : Behaves writes (popMany count) := by
  refine Behaves.bind (fun world => ?_) fun popped => ?_
  · rw [lastState, onEnv_apply]
    cases world.env.data.popMany? count with
    | some taken => exact becomes_placed rfl
    | none => exact .refl
  · cases popped with
    | some value => exact fun _ => .refl
    | none => exact fun _ => .refl

theorem behaves_currentEnv : Behaves writes currentEnv := fun _ => .refl

theorem behaves_lookup (symbol : Symbol) : Behaves writes (lookup symbol) := by
  refine behaves_currentEnv.bind fun env => ?_
  exact (acts_tryOnStore fun store => store.develops_lookup _ _ symbol).behavesAlone

theorem behaves_callNative (hosted : host.Acts writes hears)
    (serves : ∀ request, Behaves writes (perform request)) (name : String) (key : NativeKey)
    (arguments : List Value) : Behaves writes (callNative host perform name key arguments) := by
  cases key with
  | standard native =>
      have acts : Acts writes hears _ := native.acts_call arguments
      exact acts.behaves serves
  | hosted key =>
      refine ((hosted key name arguments).behaves serves).bind fun answer => ?_
      cases answer with
      | value value => exact fun _ => .refl
      | panic message =>
          exact (behaves_log _ _).bind fun _ => behaves_currentEnv.bind fun _ _ => .refl

theorem becomes_enter {world : World} (room : world.env.calls.size < world.config.maxCallDepth)
    (function : Function) (ref : ScopeRef) :
    world.Becomes writes (lastState (enter function ref) world) := by
  let frame : CallFrame :=
    ⟨world.env.function, world.env.pc.getD 0 + 1, world.env.scopes.size, function.name⟩
  have entered : world.Becomes writes { world with env := { world.env with
      calls := world.env.calls.push frame
      scopes := world.env.scopes.push ref } } := .entered ref room rfl
  exact entered.trans (becomes_placed rfl)

def startCall (function : Function) (parameters : List Parameter) (rest : Option Symbol)
    (arguments : List Value) : Machine Unit := do
  let limit := (← currentConfig).maxCallDepth
  if limit ≤ (← currentEnv).calls.size then fail (.runtime (.callDepth limit function.name))
  let values ← boundValues function.name parameters rest arguments
  let scope ← onStore fun store => store.newScope (.empty function.name true)
  bindAll scope values
  enter function scope

section StartCall

variable {world : World} {function : Function} {parameters : List Parameter} {rest : Option Symbol}
  {arguments : List Value}

theorem startCall_refused (deep : world.config.maxCallDepth ≤ world.env.calls.size) :
    startCall function parameters rest arguments world =
      .error (.error (.runtime (.callDepth world.config.maxCallDepth function.name))) world := by
  simp only [startCall, bind_apply, currentConfig_apply, currentEnv_apply, deep, ↓reduceIte]
  rfl

theorem startCall_apply {found : Except Error ScopeRef} {store : Store}
    (room : world.env.calls.size < world.config.maxCallDepth)
    (made : world.store.callScope function.name parameters rest arguments = (found, store)) :
    startCall function parameters rest arguments world =
      (do enter function (← ofExcept found) : Machine Unit) { world with store } := by
  rw [startCall, bind_apply, currentConfig_apply]
  dsimp only
  rw [bind_apply, currentEnv_apply]
  simp only [Nat.not_le_of_lt room, ↓reduceIte]
  exact callScope_apply made

end StartCall

theorem behaves_startCall (function : Function) (parameters : List Parameter) (rest : Option Symbol)
    (arguments : List Value) :
    Behaves writes (startCall function parameters rest arguments) := by
  intro world
  rw [lastState]
  by_cases deep : world.config.maxCallDepth ≤ world.env.calls.size
  · rw [startCall_refused deep]
    exact .refl
  · have room := Nat.lt_of_not_le deep
    cases made : world.store.callScope function.name parameters rest arguments with
    | mk found store =>
        have develops : world.store.Develops writes _ :=
          world.store.develops_callScope function.name parameters rest arguments
        rw [made] at develops
        rw [startCall_apply room made]
        cases found with
        | error cause => exact .stored develops
        | ok ref =>
            refine (World.Becomes.stored develops).trans (becomes_enter ?_ function ref)
            exact room

theorem behaves_callFunction (hosted : host.Acts writes hears)
    (serves : ∀ request, Behaves writes (perform request)) (function : Function)
    (arguments : List Value) : Behaves writes (callFunction host perform function arguments) := by
  refine (behaves_observe _ _).bind fun _ => ?_
  split
  next key arity builder body =>
    exact (acts_ofExcept _).behavesAlone.bind fun _ =>
      (behaves_callNative hosted serves _ _ _).bind fun _ =>
        (behaves_observe _ _).bind fun _ => behaves_push _
  next parameters rest code captures body => exact behaves_startCall function parameters rest arguments

theorem behaves_returnToCaller : Behaves writes returnToCaller := by
  intro world
  rw [returnToCaller, bind_last (currentEnv_apply world)]
  by_cases ends : world.env.calls.size ≤ world.env.base
  · simp only [ends, ↓reduceIte]
    exact becomes_placed rfl
  · simp only [ends, ↓reduceIte]
    cases popped : world.env.calls.pop? with
    | none => exact .refl
    | some taken =>
        obtain ⟨frame, calls⟩ := taken
        obtain ⟨journal, observed⟩ := observe_apply
          (.returned frame.callee (world.env.data.top?.getD .nil))
          [world.env.data.top?.getD .nil] world
        dsimp only
        rw [observeReturn, bind_last observed]
        have returned : World.Becomes writes { world with journal } { world with journal, env :=
            { world.env with calls, scopes := world.env.scopes.truncate frame.scopeDepth } } :=
          .returned popped
        exact (World.Becomes.told journal).trans (returned.trans (becomes_placed rfl))

theorem becomes_execute (hosted : host.Acts writes hears)
    (serves : ∀ request, Behaves writes (perform request)) {world : World} {instr : Instr}
    (permitted : Permitted writes world instr) :
    world.Becomes writes (lastState (execute host perform instr) world) := by
  cases instr with
  | push value => exact behaves_push value world
  | pop => exact becomes_placed rfl
  | dup =>
      refine behaves_currentEnv.bind (fun env => ?_) world
      dsimp only
      split
      · exact behaves_push _
      · exact fun _ => .refl
  | get symbol => exact (behaves_lookup symbol).bind behaves_push world
  | put symbol =>
      refine becomes_taking fun value data popped => ?_
      rw [bind_last (currentEnv_apply _)]
      refine becomes_bind (becomes_tryOnStore ?_) fun _ _ _ => becomes_placed rfl
      exact world.store.develops_bind (permitted value data popped)
  | set symbol =>
      refine becomes_taking fun value data popped => ?_
      rw [bind_last (currentEnv_apply _)]
      refine becomes_bind (becomes_tryOnStore ?_) fun _ _ _ => becomes_placed rfl
      exact world.store.develops_assign (permitted value data popped)
  | call symbol count =>
      refine (behaves_lookup symbol).bind (fun value => ?_) world
      cases value with
      | function ref =>
          exact (behaves_popMany count).bind fun arguments => Behaves.bind (fun _ => .refl)
            fun function => behaves_callFunction hosted serves function arguments
      | _ => exact fun _ => .refl
  | dispatch count =>
      refine (behaves_popMany count).bind (fun arguments => behaves_pop.bind fun value => ?_) world
      cases value with
      | function ref =>
          exact Behaves.bind (fun _ => .refl) fun function =>
            behaves_callFunction hosted serves function arguments
      | _ => exact fun _ => .refl
  | jump target => exact becomes_placed rfl
  | branch direction target =>
      refine behaves_pop.bind (fun value => ?_) world
      split
      · exact fun _ => becomes_placed rfl
      · exact fun _ => becomes_placed rfl
  | ret => exact behaves_returnToCaller world
  | closure ref =>
      refine behaves_currentEnv.bind (fun env => ?_) world
      have made : Behaves writes (onStore fun store =>
          let scopes := store.capturable Store.global env.scopes.elements
          store.newFunction ((store.function ref).closeOver scopes env.function)) :=
        fun world => .stored (world.store.develops_newFunction _)
      exact made.bind fun _ => behaves_push _
  | openScope =>
      have made : Behaves writes (onStore fun store => store.newScope (.empty "let" false)) :=
        fun world => .stored (world.store.develops_newScope _)
      refine made.bind (fun ref world => ?_) world
      exact (World.Becomes.opened ref).trans (becomes_placed rfl)
  | closeScope =>
      by_cases last : world.env.scopes.size ≤ 1
      · simp only [lastState, execute, bind_apply, currentEnv_apply, last, ↓reduceIte]
        exact .refl
      · simp only [lastState, execute, bind_apply, currentEnv_apply, last, ↓reduceIte]
        exact (World.Becomes.closed (Nat.lt_of_not_le last)).trans (becomes_placed rfl)
  | leave exit => exact .refl

end Steps

end Machine

end StackLisp
