import StackLisp.Machine.Host
import StackLisp.Proofs.Form.Layout
import StackLisp.Proofs.Store.Fault
import StackLisp.Proofs.Store.Functions

/-!
Tame computations: what native functions and readers of forms come to, whatever runs they may ask
for. They look at the state, change the store and the journal, fail without a fault and ask for runs;
the stacks they leave alone, and the calls and returns that the journal tells of.
-/

namespace StackLisp

def Function.Generated (function : Function) : Prop :=
  ∃ parameters rest body captures, body.enclosed false = true ∧
    function.body = .compiled parameters rest (Form.functionCode body).toArray captures

/-- A later store has the same functions in the same places, and new ones that were generated; its
scopes are of the kinds that they were, and have the names that they had, and values keep their kinds. -/
structure Store.Grows (store later : Store) : Prop where
  functions : ∃ added : List Function, later.functions = store.functions ++ added.toArray ∧
    ∀ function ∈ added, function.Generated
  kinds : store.kinds <+: later.kinds
  names : store.names <+: later.names
  types : store.KeepsTypes later

theorem Store.Keeps.grows {store later : Store} (keeps : store.Keeps later) : store.Grows later :=
  ⟨⟨[], by simpa using keeps.functions, by simp⟩, keeps.kinds, keeps.names, keeps.types⟩

theorem Store.Grows.added {store later : Store} (grows : store.Grows later) :
    store.functions.toList <+: later.functions.toList := by
  obtain ⟨⟨added, functions, _⟩, _⟩ := grows
  rw [functions]
  simp

theorem Store.grows_newFunction (store : Store) {function : Function}
    (generated : function.Generated) : store.Grows (store.newFunction function).2 :=
  ⟨⟨[function], by simp [newFunction], by simpa using generated⟩, List.prefix_rfl,
    List.prefix_rfl, .of_eq rfl rfl⟩

namespace Machine

/-- Computations by the runs that they may ask for, with what holds of their results. -/
inductive Tame : {α : Type} → (α → Prop) → (Perform → Machine α) → Prop
  | result {α : Type} {holds : α → Prop} {value : α} :
    holds value → Tame holds fun _ => pure value
  | failure {α : Type} {holds : α → Prop} {cause : Error} :
    cause.isFault = false → Tame holds fun _ => fail cause
  | outOfFuel {α : Type} {holds : α → Prop} : Tame holds fun _ => exhausted
  | look {holds : World → Prop} : (∀ world, holds world) → Tame holds fun _ => get
  | change {α : Type} {holds : α → Prop} {change : Store → α × Store} :
    (∀ store, holds (change store).1) → (∀ store : Store, store.Grows (change store).2) →
    Tame holds fun _ => onStore change
  | note {change : Journal → Journal} : (∀ journal, (change journal).events = journal.events) →
    Tame (fun _ => True) fun _ => onJournal change
  | andThen {α β : Type} {first : α → Prop} {holds : β → Prop} {body : Perform → Machine α}
    {later : Perform → α → Machine β} :
    Tame first body → (∀ value, first value → Tame holds fun perform => later perform value) →
    Tame holds fun perform => body perform >>= later perform
  | apply {function : Value} {arguments : List Value} :
    Tame (fun _ => True) fun perform => perform (.apply function arguments)
  | applyApart {function : Value} {arguments : List Value} :
    Tame (fun _ => True) fun perform => inNested (perform (.apply function arguments))
  | evaluateApart {forms : List Value} :
    Tame (fun _ => True) fun perform => inNested (perform (.evaluate forms))

abbrev IsTame {α : Type} (body : Perform → Machine α) : Prop := Tame (fun _ => True) body

section Tame

variable {α β : Type} {holds : α → Prop}

theorem bind_apply {α β : Type} (body : Machine α) (later : α → Machine β) (world : World) :
    (body >>= later) world =
      match body world with
      | .ok value after => later value after
      | .error stop after => .error stop after := by
  simp only [Bind.bind, EStateM.bind]
  cases body world <;> rfl

theorem pure_apply {α : Type} (value : α) (world : World) :
    (pure value : Machine α) world = .ok value world := rfl

theorem currentEnv_apply (world : World) : currentEnv world = .ok world.env world := rfl

theorem currentConfig_apply (world : World) : currentConfig world = .ok world.config world := rfl

theorem readStore_apply {α : Type} (read : Store → α) (world : World) :
    readStore read world = .ok (read world.store) world := rfl

theorem log_apply (level : Level) (message : Unit → String) (world : World) :
    ∃ journal, log level message world = .ok () { world with journal } := by
  by_cases logging : world.config.logging = true
  · refine ⟨{ world.journal with log := world.journal.log.push (level, message ()) }, ?_⟩
    simp only [log, bind_apply, currentConfig_apply, logging, ↓reduceIte]
    rfl
  · refine ⟨world.journal, ?_⟩
    simp only [log, bind_apply, currentConfig_apply, logging]
    rfl

/-- Telling of a call or a return is not tame, but it changes nothing besides the journal. -/
theorem observe_apply (event : Event) (values : List Value) (world : World) :
    ∃ journal, observe event values world = .ok () { world with journal } := by
  by_cases observing : world.config.observing = true
  · refine ⟨{ world.journal with
      events := world.journal.events.push (event, values.map world.store.text) }, ?_⟩
    simp only [observe, bind_apply, currentConfig_apply, observing, ↓reduceIte]
    rfl
  · refine ⟨world.journal, ?_⟩
    simp only [observe, bind_apply, currentConfig_apply, observing]
    rfl

theorem inEnv_apply {α : Type} (other : Env) (body : Machine α) (world : World) :
    inEnv other body world =
      match body { world with env := other } with
      | .ok result after => .ok result { after with env := world.env }
      | .error stop after => .error stop { after with env := world.env } := rfl

theorem checkNesting_refuses {world : World} (deep : world.config.maxNesting ≤ world.env.nesting) :
    checkNesting world =
      .error (.error (.runtime (.nestingDepth world.config.maxNesting))) world := by
  simp only [checkNesting, bind_apply, currentConfig_apply, currentEnv_apply, deep, ↓reduceIte]
  rfl

theorem checkNesting_passes {world : World} (room : world.env.nesting < world.config.maxNesting) :
    checkNesting world = .ok () world := by
  simp only [checkNesting, bind_apply, currentConfig_apply, currentEnv_apply, Nat.not_le_of_lt room,
    ↓reduceIte]
  rfl

theorem Tame.held {holds : α → Prop} {body : Perform → Machine α} (tame : Tame holds body)
    {perform : Perform} {world after : World} {value : α}
    (ran : body perform world = .ok value after) : holds value := by
  induction tame generalizing world after with
  | result held =>
      cases ran
      exact held
  | failure => cases ran
  | outOfFuel => cases ran
  | look held =>
      cases ran
      exact held _
  | change held =>
      cases ran
      exact held _
  | @andThen _ _ _ _ body _ _ _ ihFirst ihLater =>
      dsimp only at ran
      rw [bind_apply] at ran
      cases split : body perform world with
      | ok between middle =>
          rw [split] at ran
          exact ihLater between (ihFirst split) ran
      | error stop middle =>
          rw [split] at ran
          cases ran
  | note => trivial
  | apply => trivial
  | applyApart => trivial
  | evaluateApart => trivial

theorem tame_pure (value : α) : IsTame fun _ => (pure value : Machine α) := .result trivial

theorem tame_bind {body : Perform → Machine α} {later : Perform → α → Machine β}
    (first : IsTame body) (second : ∀ value, IsTame fun perform => later perform value) :
    IsTame fun perform => body perform >>= later perform :=
  first.andThen fun value _ => second value

theorem tame_ofExcept {result : Except Error α} (spared : Harmless result) :
    IsTame fun _ => ofExcept result := by
  cases result with
  | ok value => exact tame_pure value
  | error cause => exact .failure (spared cause rfl)

theorem tame_look : IsTame fun _ => (get : Machine World) := .look fun _ => trivial

theorem tame_readStore (read : Store → α) : IsTame fun _ => readStore read :=
  tame_bind tame_look fun _ => tame_pure _

theorem tame_ask {question : Store → Except Error α} (spared : ∀ store, Harmless (question store)) :
    IsTame fun _ => ask question := by
  have read : Tame Harmless fun _ => readStore question :=
    tame_look.andThen fun world _ => .result (spared world.store)
  exact read.andThen fun _ spared => tame_ofExcept spared

theorem tame_onStore {change : Store → α × Store}
    (keeps : ∀ store : Store, store.Keeps (change store).2) :
    IsTame fun _ => onStore change :=
  .change (fun _ => trivial) fun store => (keeps store).grows

theorem tame_tryOnStore {change : Store → Except Error α × Store}
    (spared : ∀ store, Harmless (change store).1)
    (keeps : ∀ store : Store, store.Keeps (change store).2) :
    IsTame fun _ => tryOnStore change :=
  .andThen (.change spared fun store => (keeps store).grows) fun _ spared =>
    tame_ofExcept spared

theorem tame_currentEnv : IsTame fun _ => currentEnv :=
  tame_bind tame_look fun _ => tame_pure _

theorem tame_currentConfig : IsTame fun _ => currentConfig :=
  tame_bind tame_look fun _ => tame_pure _

theorem tame_log (level : Level) (message : Unit → String) : IsTame fun _ => log level message := by
  refine tame_bind tame_currentConfig fun config => ?_
  split
  · exact .note fun _ => rfl
  · exact tame_pure _

theorem tame_newList (items : List Value) : IsTame fun _ => newList items :=
  tame_onStore fun store => store.newList_keeps items

theorem tame_newArray (items : List Value) : IsTame fun _ => newArray items :=
  tame_onStore fun store => store.newArray_keeps items.toArray

theorem tame_intern (name : String) : IsTame fun _ => intern name :=
  tame_onStore fun store => store.intern_keeps name

end Tame

end Machine

end StackLisp
