import StackLisp.Proofs.Machine.Balance
import StackLisp.Proofs.Machine.Keeping

/-!
Instructions, whatever comes of them. An instruction moves the place and the stacks of calls and scopes
only in its last action, which never fails; so what fails before has moved nothing but values.
-/

namespace StackLisp.Machine

namespace Keeping

variable {keeping : Keeping}

theorem leaves_pop : keeping.Leaves pop := by
  refine Leaves.bind (fun world starts => ?_) fun popped => ?_
  · rw [lastState, onEnv_apply]
    cases world.env.data.pop? with
    | some taken => exact keeping.data starts
    | none => exact keeping.refl starts
  · cases popped with
    | some value => exact leaves_pure value
    | none => exact leaves_fail _

theorem leaves_popMany (count : Nat) : keeping.Leaves (popMany count) := by
  refine Leaves.bind (fun world starts => ?_) fun popped => ?_
  · rw [lastState, onEnv_apply]
    cases world.env.data.popMany? count with
    | some taken => exact keeping.data starts
    | none => exact keeping.refl starts
  · cases popped with
    | some values => exact leaves_pure values
    | none => exact leaves_fail _

theorem leaves_newScope (scope : Scope) :
    keeping.Leaves (onStore fun store => store.newScope scope) :=
  fun world starts => keeping.store starts (world.store.newScope_keeps scope).grows

end Keeping

/-- A relation that is kept by all that an instruction does before its last action, and another one
for instructions that are executed to their end. -/
structure Moving extends Keeping where
  done : World → World → Prop
  moved : ∀ {world env}, starts world → done world { world with env }
  through : ∀ {world between after}, rel world between → done between after → done world after
  closed : ∀ {world} ref scopes maker, starts world → rel world { world with
    store := (world.store.newFunction ((world.store.function ref).closeOver scopes maker)).2 }

namespace Moving

variable {α β : Type} (moving : Moving)

def Leaves (body : Machine α) : Prop := moving.toKeeping.Leaves body

/-- A computation that ends as told, or fails before it has moved. -/
def Ends (body : Machine α) : Prop :=
  ∀ world, moving.starts world →
    match body world with
    | .ok _ after => moving.done world after
    | .error _ after => moving.rel world after

variable {moving}

theorem ends_of_leaves {body : Machine α} {later : α → Machine β} (first : moving.Leaves body)
    (second : ∀ value, moving.Ends (later value)) : moving.Ends (body >>= later) := by
  intro world starts
  have kept := first world starts
  rw [bind_apply]
  rw [lastState] at kept
  cases ran : body world with
  | ok value between =>
      rw [ran] at kept
      have ended := second value between (moving.kept starts kept)
      dsimp only
      cases went : later value between with
      | ok result after =>
          rw [went] at ended
          exact moving.through kept ended
      | error stop after =>
          rw [went] at ended
          exact moving.trans kept ended
  | error stop after =>
      rw [ran] at kept
      exact kept

theorem ends_pure (value : α) : moving.Ends (pure value) := by
  intro world starts
  have still : moving.done world { world with env := world.env } := moving.moved starts
  exact still

theorem Ends.told {body : Machine α} (ends : moving.Ends body) (value : β) :
    moving.Ends (do let _ ← body; return value) := by
  intro world starts
  have ended := ends world starts
  rw [bind_apply]
  cases ran : body world with
  | ok result after =>
      rw [ran] at ended
      exact ended
  | error stop after =>
      rw [ran] at ended
      exact ended

theorem ends_fail (cause : Error) : moving.Ends (fail cause : Machine α) := fun _ => moving.refl

theorem ends_modifyEnv (change : Env → Env) : moving.Ends (modifyEnv change) := fun _ => moving.moved

theorem ends_moveOn (change : Env → Env) :
    moving.Ends (do modifyEnv change; advance) := fun _ => moving.moved

theorem ends_push (value : Value) : moving.Ends (do push value; advance) := ends_moveOn _

theorem ends_returnToCaller : moving.Ends returnToCaller := by
  refine ends_of_leaves Keeping.leaves_currentEnv fun env => ?_
  split
  · exact ends_modifyEnv _
  · split
    · exact ends_fail _
    · exact ends_of_leaves (Keeping.leaves_observe _ _) fun _ => ends_modifyEnv _

def Calls (moving : Moving) (host : Host) (perform : Perform) : Prop :=
  ∀ world ref key arity builder name arguments, moving.starts world →
    (world.store.function ref).body = .native key arity builder →
    moving.Leaves (callNative host perform name key arguments)

section Calls

variable {host : Host} {perform : Perform} (calls : moving.Calls host perform)

include calls

theorem ends_callFunction (ref : FunctionRef) (arguments : List Value) :
    moving.Ends (do
      callFunction host perform (← readStore fun store => store.function ref) arguments) := by
  intro world starts
  have ends : moving.Ends (callFunction host perform (world.store.function ref) arguments) := by
    refine ends_of_leaves (Keeping.leaves_observe _ _) fun _ => ?_
    split
    next key arity builder body =>
      refine ends_of_leaves (tame_ofExcept (arity_harmless _ _ _)).leavesAlone fun _ => ?_
      refine ends_of_leaves (calls world ref key arity builder _ _ starts body) fun result => ?_
      exact ends_of_leaves (Keeping.leaves_observe _ _) fun _ => ends_push _
    next parameters rest code captures body =>
      refine ends_of_leaves Keeping.leaves_currentConfig fun config => ?_
      refine ends_of_leaves Keeping.leaves_currentEnv fun env => ?_
      have entered : moving.Ends (do
          let values ← boundValues (world.store.function ref).name parameters rest arguments
          let scope ← onStore fun store => store.newScope (.empty (world.store.function ref).name true)
          bindAll scope values
          enter (world.store.function ref) scope) :=
        ends_of_leaves (tame_boundValues _ _ _ _).leavesAlone fun _ =>
          ends_of_leaves (Keeping.leaves_newScope _) fun _ =>
            ends_of_leaves (tame_bindAll _ _).leavesAlone fun _ => ends_modifyEnv _
      dsimp only
      split
      · exact ends_of_leaves (Keeping.leaves_fail _) fun _ => entered
      · exact entered
  exact ends world starts

theorem ends_execute (instr : Instr) : moving.Ends (execute host perform instr) := by
  cases instr with
  | push value => exact ends_push value
  | pop => exact ends_moveOn _
  | dup =>
      refine ends_of_leaves Keeping.leaves_currentEnv fun env => ?_
      dsimp only
      split
      · exact ends_push _
      · exact ends_of_leaves (Keeping.leaves_fail _) fun _ => ends_modifyEnv _
  | get symbol => exact ends_of_leaves (tame_lookup symbol).leavesAlone fun value => ends_push value
  | put symbol =>
      refine ends_of_leaves Keeping.leaves_pop fun value => ?_
      refine ends_of_leaves Keeping.leaves_currentEnv fun env => ?_
      have bound := tame_tryOnStore (fun store => store.bind_harmless (innermostScope env) symbol value)
        fun store => store.bind_keeps _ symbol value
      exact ends_of_leaves bound.leavesAlone fun _ => ends_modifyEnv _
  | set symbol =>
      refine ends_of_leaves Keeping.leaves_pop fun value => ?_
      refine ends_of_leaves Keeping.leaves_currentEnv fun env => ?_
      have assigned := tame_tryOnStore
        (fun store => store.assign_harmless env.scopes.elements env.function.captures symbol value)
        fun store => store.assign_keeps _ _ symbol value
      exact ends_of_leaves assigned.leavesAlone fun _ => ends_modifyEnv _
  | call symbol count =>
      refine ends_of_leaves (tame_lookup symbol).leavesAlone fun value => ?_
      cases value with
      | function ref =>
          exact ends_of_leaves (Keeping.leaves_popMany count) fun arguments =>
            ends_callFunction calls ref arguments
      | _ => exact ends_of_leaves (tame_readStore _).leavesAlone fun _ => ends_fail _
  | dispatch count =>
      refine ends_of_leaves (Keeping.leaves_popMany count) fun arguments => ?_
      refine ends_of_leaves Keeping.leaves_pop fun value => ?_
      cases value with
      | function ref => exact ends_callFunction calls ref arguments
      | _ => exact ends_of_leaves (tame_readStore _).leavesAlone fun _ => ends_fail _
  | jump target => exact ends_modifyEnv fun env => { env with pc := some target }
  | branch direction target =>
      refine ends_of_leaves Keeping.leaves_pop fun value => ?_
      split
      · exact ends_modifyEnv fun env => { env with pc := some target }
      · exact ends_modifyEnv _
  | ret => exact ends_returnToCaller
  | closure ref =>
      refine ends_of_leaves Keeping.leaves_currentEnv fun env => ends_of_leaves ?_ fun _ => ends_push _
      exact fun world starts => moving.closed ref _ env.function starts
  | openScope => exact ends_of_leaves (Keeping.leaves_newScope _) fun _ => ends_moveOn _
  | closeScope =>
      refine ends_of_leaves Keeping.leaves_currentEnv fun env => ?_
      dsimp only
      split
      · exact ends_of_leaves (Keeping.leaves_fail _) fun _ => ends_moveOn _
      · exact ends_moveOn _
  | leave exit => exact ends_fail _

theorem ends_step : moving.Ends (step host perform) := by
  refine ends_of_leaves Keeping.leaves_currentEnv fun env => ?_
  cases nextInstr? env with
  | none => exact ends_pure false
  | some instr =>
      exact ends_of_leaves (tame_logInstr instr).leavesAlone fun _ =>
        (ends_execute calls instr).told true

end Calls

end Moving

/-- A step that fails ends its run, as a failure or else as the last step; then it is noted. -/
theorem drive_error {host : Host} {perform : Perform} {world after : World} {stop : Stop}
    (ran : step host perform world = .error stop after) (fuel : Nat) :
    drive host perform (fuel + 1) world = .error stop after ∨
      ∃ journal, drive host perform (fuel + 1) world = .ok () { after with journal } := by
  simp only [drive, ran]
  split
  next told => cases told
  next told => cases told
  next ended told =>
    cases told
    split
    · exact .inr (log_apply _ _ after)
    · exact .inl rfl
  next told =>
    cases told
    exact .inl rfl

end StackLisp.Machine
