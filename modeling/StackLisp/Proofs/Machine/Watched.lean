import StackLisp.Proofs.Machine.Safety

/-!
Watched runs: before each step, in the runs inside of others as well, something is asked of the state.
Where it holds in the midst of all runs, watching makes no difference.
-/

namespace StackLisp

namespace Machine

section Watched

variable (law : World → Prop) [DecidablePred law] (host : Host) (perform : Perform)

def watchedStep : Machine Bool := fun world =>
  if law world then step host perform world else fail .stackUnderflow world

def watchedDrive : Nat → Machine Unit
  | 0 => exhausted
  | fuel + 1 => do
    if ← watchedStep law host perform then watchedDrive fuel

end Watched

/-- Does what is requested as long as the law holds before each step, also of the runs that this
leads to. -/
def watchedPerform (law : World → Prop) [DecidablePred law] (host : Host) :
    Nat → Request → Machine Value
  | 0, _ => exhausted
  | fuel + 1, request =>
    serve host (watchedPerform law host fuel) fuel
      (watchedDrive law host (watchedPerform law host fuel) fuel) request

section Watched

variable {law : World → Prop} [DecidablePred law] {stage : Stage}

theorem goes_watchedDrive
    (lawful : ∀ ground start world, Based stage ground start → Running ground start world →
      law world) (host : Host) (perform : Perform) :
    Goes stage host perform (watchedDrive law host perform) := by
  refine ⟨rfl, fun ground start world fuel based running _ => ?_⟩
  rw [watchedDrive, bind_apply, watchedStep, if_pos (lawful ground start world based running)]
  cases step host perform world with
  | ok more after => cases more <;> rfl
  | error stop after => rfl

theorem watchedPerform_spec
    (lawful : ∀ ground start world, Based stage ground start → Running ground start world →
      law world) (host : Host) (fuel : Nat) :
    RunSpec stage (watchedPerform law host fuel) (perform host fuel) :=
  spec_of_goes (goes_watchedDrive lawful host) (fun _ => rfl) (fun _ _ => rfl) fuel

end Watched

end Machine

namespace Interpreter

open Machine

def watchedEvalText (law : World → Prop) [DecidablePred law] (host : Host) (fuel : Nat)
    (text : String) : Machine Value := do
  watchedPerform law host fuel (.evaluate (← readText text))

end Interpreter

end StackLisp
