import StackLisp.Proofs.Machine.Stage

/-!
What computations keep, whatever comes of them: a relation between the state that a computation begins
in and the one that it leaves, be it with a result or without.
-/

namespace StackLisp

theorem Stack.elements_truncate_one {α : Type} {stack : Stack α} {last : α}
    (isLast : stack.elements.getLast? = some last) : (stack.truncate 1).elements = [last] := by
  obtain ⟨inner, elements⟩ := List.getLast?_eq_some_iff.mp isLast
  simp [truncate, drop, stack.size_eq, elements]

namespace Machine

def lastState {α : Type} (body : Machine α) (world : World) : World :=
  match body world with
  | .ok _ after => after
  | .error _ after => after

theorem bind_last {α β : Type} {body : Machine α} {later : α → Machine β} {value : α}
    {world after : World} (ran : body world = .ok value after) :
    lastState (body >>= later) world = lastState (later value) after := by
  rw [lastState, bind_apply, ran, lastState]

theorem inEnv_last {α : Type} (other : Env) (body : Machine α) (world : World) :
    lastState (inEnv other body) world =
      { lastState body { world with env := other } with env := world.env } := by
  rw [lastState, inEnv_apply, lastState]
  cases body { world with env := other } <;> rfl

/-- A relation that goes on from states of one sort to states of this sort, whatever happens to the
store, the journal and the data stack, and in interpreters apart. -/
structure Keeping where
  starts : World → Prop
  rel : World → World → Prop
  refl : ∀ {world}, starts world → rel world world
  trans : ∀ {world between after}, rel world between → rel between after → rel world after
  kept : ∀ {world after}, starts world → rel world after → starts after
  store : ∀ {world store}, starts world → world.store.Grows store → rel world { world with store }
  journal : ∀ {world journal}, starts world → rel world { world with journal }
  data : ∀ {world data}, starts world → rel world { world with env := { world.env with data } }
  apart : ∀ {world} journal, starts world → world.env.nesting < world.config.maxNesting →
    starts (apart journal world)
  back : ∀ {world journal after}, starts world → rel (Machine.apart journal world) after →
    rel world { after with env := world.env }

namespace Keeping

variable {α β : Type} (keeping : Keeping)

def Leaves (body : Machine α) : Prop :=
  ∀ world, keeping.starts world → keeping.rel world (lastState body world)

variable {keeping}

theorem Leaves.of_ok {body : Machine α} (leaves : keeping.Leaves body) {world after : World}
    {value : α} (starts : keeping.starts world) (ran : body world = .ok value after) :
    keeping.rel world after := by
  have kept := leaves world starts
  rwa [lastState, ran] at kept

theorem Leaves.of_error {body : Machine α} (leaves : keeping.Leaves body) {world after : World}
    {stop : Stop} (starts : keeping.starts world) (ran : body world = .error stop after) :
    keeping.rel world after := by
  have kept := leaves world starts
  rwa [lastState, ran] at kept

theorem leaves_pure (value : α) : keeping.Leaves (pure value) := fun _ => keeping.refl

theorem leaves_fail (cause : Error) : keeping.Leaves (fail cause : Machine α) := fun _ => keeping.refl

theorem leaves_look : keeping.Leaves get := fun _ => keeping.refl

theorem rel_bind {body : Machine α} {later : α → Machine β} {world : World}
    (starts : keeping.starts world) (kept : keeping.rel world (lastState body world))
    (second : ∀ value after, body world = .ok value after → keeping.Leaves (later value)) :
    keeping.rel world (lastState (body >>= later) world) := by
  rw [lastState, bind_apply]
  rw [lastState] at kept
  cases ran : body world with
  | ok value after =>
      rw [ran] at kept
      exact keeping.trans kept (second value after ran after (keeping.kept starts kept))
  | error stop after =>
      rw [ran] at kept
      exact kept

theorem Leaves.andThen {body : Machine α} {later : α → Machine β} (first : keeping.Leaves body)
    (second : ∀ world value after, body world = .ok value after → keeping.Leaves (later value)) :
    keeping.Leaves (body >>= later) :=
  fun world starts => rel_bind starts (first world starts) (second world)

theorem Leaves.bind {body : Machine α} {later : α → Machine β} (first : keeping.Leaves body)
    (second : ∀ value, keeping.Leaves (later value)) : keeping.Leaves (body >>= later) :=
  first.andThen fun _ value _ _ => second value

theorem leaves_currentEnv : keeping.Leaves currentEnv := fun _ => keeping.refl

theorem leaves_currentConfig : keeping.Leaves currentConfig := fun _ => keeping.refl

theorem leaves_log (level : Level) (message : Unit → String) :
    keeping.Leaves (log level message) := by
  refine leaves_currentConfig.bind fun config => ?_
  split
  · exact fun _ => keeping.journal
  · exact leaves_pure ()

theorem leaves_observe (event : Event) (values : List Value) :
    keeping.Leaves (observe event values) := by
  intro world starts
  obtain ⟨journal, observed⟩ := observe_apply event values world
  rw [lastState, observed]
  exact keeping.journal starts

theorem leaves_checked {body : Machine α}
    (kept : ∀ world, keeping.starts world → world.env.nesting < world.config.maxNesting →
      keeping.rel world (lastState body world)) :
    keeping.Leaves (do checkNesting; body) := by
  intro world starts
  by_cases deep : world.config.maxNesting ≤ world.env.nesting
  · rw [lastState, bind_apply, checkNesting_refuses deep]
    exact keeping.refl starts
  · have room := Nat.lt_of_not_le deep
    rw [bind_last (checkNesting_passes room)]
    exact kept world starts room

theorem leaves_inNested {body : Machine α}
    (kept : ∀ world journal, keeping.starts world → world.env.nesting < world.config.maxNesting →
      keeping.rel world { lastState body (Machine.apart journal world) with env := world.env }) :
    keeping.Leaves (inNested body) := by
  refine leaves_checked fun world starts room => ?_
  obtain ⟨journal, logged⟩ := log_apply .debug (fun _ => "duplicating environment") world
  rw [logDuplicate, bind_last logged, bind_last (currentEnv_apply _), inEnv_last]
  exact kept world journal starts room

theorem Leaves.inNested {body : Machine α} (leaves : keeping.Leaves body) :
    keeping.Leaves (inNested body) :=
  leaves_inNested fun _ journal starts room =>
    keeping.back starts (leaves _ (keeping.apart journal starts room))

structure Serves (keeping : Keeping) (perform : Perform) : Prop where
  apply : ∀ function arguments, keeping.Leaves (perform (.apply function arguments))
  evaluate : ∀ forms, keeping.Leaves (inNested (perform (.evaluate forms)))

end Keeping

open Keeping in
theorem Tame.leaves {α : Type} {holds : α → Prop} {body : Perform → Machine α}
    (tame : Tame holds body) {keeping : Keeping} {perform : Perform}
    (serves : keeping.Serves perform) : keeping.Leaves (body perform) := by
  induction tame with
  | result | failure | outOfFuel | look => exact fun _ => keeping.refl
  | note => exact fun _ => keeping.journal
  | change _ grows => exact fun world starts => keeping.store starts (grows world.store)
  | andThen first _ ihFirst ihLater =>
      exact ihFirst.andThen fun world value after ran => ihLater value (first.held ran)
  | apply => exact serves.apply _ _
  | applyApart => exact (serves.apply _ _).inNested
  | evaluateApart => exact serves.evaluate _

open Keeping in
theorem Tame.leavesAlone {α : Type} {holds : α → Prop} {body : Machine α}
    (tame : Tame holds fun _ => body) {keeping : Keeping} : keeping.Leaves body := by
  have idle : keeping.Serves fun _ => exhausted :=
    ⟨fun _ _ _ => keeping.refl, fun _ => Leaves.inNested fun _ => keeping.refl⟩
  exact tame.leaves idle

def Keeping.functions : Keeping where
  starts := fun _ => True
  rel := fun world after => world.store.functions.toList <+: after.store.functions.toList
  refl := fun _ => List.prefix_rfl
  trans := List.IsPrefix.trans
  kept := fun _ _ => trivial
  store := fun _ grows => grows.added
  journal := fun _ => List.prefix_rfl
  data := fun _ => List.prefix_rfl
  apart := fun _ _ _ => trivial
  back := fun _ added => added

end Machine

end StackLisp
