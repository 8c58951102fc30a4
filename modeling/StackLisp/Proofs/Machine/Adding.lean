import StackLisp.Proofs.Form.Reading
import StackLisp.Proofs.Machine.Outcome
import StackLisp.Proofs.Machine.Spared

/-!
Whatever runs and however it ends, the functions that were made before are still there behind it, each
in its place.
-/

namespace StackLisp

/-- A host whose functions leave those of the store where they are, if the runs that they ask for do. -/
def Host.KeepsFunctions (host : Host) : Prop :=
  ∀ key perform name arguments,
    (∀ request : Request, Machine.Keeping.functions.Leaves (perform request)) →
    Machine.Keeping.functions.Leaves (host.call key perform name arguments)

theorem Host.none_keepsFunctions : Host.none.KeepsFunctions :=
  fun _ _ _ _ _ => Machine.Keeping.leaves_pure _

namespace Machine

def Moving.functions : Moving where
  toKeeping := Keeping.functions
  done := Keeping.functions.rel
  moved := fun _ => List.prefix_rfl
  through := Keeping.functions.trans
  closed := fun _ _ _ _ => (Store.newFunction_lasts _ _).functions

abbrev Adds {α : Type} (body : Machine α) : Prop := Keeping.functions.Leaves body

open Keeping

variable {α : Type} {host : Host} {perform : Perform}

theorem serves_functions (performs : ∀ request, Adds (perform request)) :
    Keeping.functions.Serves perform :=
  ⟨fun _ _ => performs _, fun _ => (performs _).inNested⟩

theorem adds_modifyEnv (change : Env → Env) : Adds (modifyEnv change) := fun _ _ => List.prefix_rfl

theorem adds_inside {body : Machine α} (adds : Adds body) (function : Function) :
    Adds (inside function body) := by
  intro world _
  rw [inside_last]
  exact adds (inner function world) trivial

section Runs

variable (keeps : host.KeepsFunctions) (performs : ∀ request, Adds (perform request))

include keeps performs

theorem adds_callNative (name : String) (key : NativeKey) (arguments : List Value) :
    Adds (callNative host perform name key arguments) := by
  cases key with
  | standard native => exact (native.tame_call arguments).leaves (serves_functions performs)
  | hosted key =>
      refine (keeps key perform name arguments performs).bind fun answer => ?_
      cases answer with
      | value value => exact leaves_pure value
      | panic message =>
          exact (leaves_log _ _).bind fun _ => leaves_currentEnv.bind fun _ => leaves_fail _

theorem adds_drive (fuel : Nat) : Adds (drive host perform fuel) := by
  induction fuel with
  | zero => exact fun _ _ => List.prefix_rfl
  | succ fuel ih =>
      intro world _
      have calls : Moving.functions.Calls host perform := fun _ _ key _ _ name arguments _ _ =>
        adds_callNative keeps performs name key arguments
      have stepped := Moving.ends_step calls world trivial
      rw [lastState]
      cases ran : step host perform world with
      | ok more after =>
          rw [ran] at stepped
          simp only [drive, ran]
          cases more with
          | true => exact List.IsPrefix.trans stepped (ih after trivial)
          | false => exact stepped
      | error stop after =>
          rw [ran] at stepped
          rcases drive_error ran fuel with failed | ⟨journal, ended⟩
          · rw [failed]
            exact stepped
          · rw [ended]
            exact stepped

theorem adds_applyFunction {go : Machine Unit} (goes : Adds go) (function : Value)
    (arguments : List Value) : Adds (applyFunction host perform go function arguments) := by
  cases function with
  | function ref =>
      refine Leaves.bind (fun _ _ => List.prefix_rfl) fun called => ?_
      cases called.body with
      | native key arity builder =>
          refine (tame_ofExcept (arity_harmless _ _ _)).leavesAlone.bind fun _ => ?_
          refine (leaves_observe _ _).bind fun _ => ?_
          refine (adds_callNative keeps performs _ key arguments).bind fun result => ?_
          exact (leaves_observe _ _).bind fun _ => leaves_pure result
      | compiled parameters rest code captures =>
          refine leaves_checked fun world starts _ => ?_
          exact (adds_inside goes _).bind (fun _ => leaves_pop) world starts
  | _ => exact Leaves.bind (fun _ _ => List.prefix_rfl) fun _ => leaves_fail _

omit keeps in
theorem adds_loadProgram (fuel : Nat) (values : List Value) :
    Adds (loadProgram perform fuel values) :=
  ((Form.tame_readProgram fuel values).leaves (serves_functions performs)).bind fun _ =>
    (leaves_log _ _).bind fun _ => adds_modifyEnv _

omit keeps performs in
theorem adds_runProgram {go : Machine Unit} (goes : Adds go) : Adds (runProgram go) :=
  goes.bind fun _ _ _ => List.prefix_rfl

end Runs

theorem adds_perform (keeps : host.KeepsFunctions) (fuel : Nat) (request : Request) :
    Adds (Machine.perform host fuel request) := by
  induction fuel generalizing request with
  | zero => exact fun _ _ => List.prefix_rfl
  | succ fuel ih =>
      have goes := adds_drive keeps ih fuel
      cases request with
      | apply function arguments => exact adds_applyFunction keeps ih goes function arguments
      | load forms => exact (adds_loadProgram ih fuel forms).bind fun _ => leaves_pure _
      | run => exact adds_runProgram goes
      | evaluate forms =>
          exact (adds_loadProgram ih fuel forms).bind fun _ => adds_runProgram goes

end Machine

end StackLisp
