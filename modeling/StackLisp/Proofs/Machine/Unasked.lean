import StackLisp.Proofs.Native.Tame
import StackLisp.Proofs.Machine.Strict

/-!
Steps that ask for no run. Nothing of what runs might have come to is seen in them.
-/

namespace StackLisp.Machine

/-- A computation that comes to a result without any run that it might ask for comes to it whatever
runs there are. -/
def Unasked {α : Type} (body : Perform → Machine α) : Prop :=
  ∀ perform world value after, body (fun _ => exhausted) world = .ok value after →
    body perform world = .ok value after

section Unasked

variable {α β : Type}

theorem unasked_const (body : Machine α) : Unasked fun _ => body := fun _ _ _ _ ran => ran

theorem unasked_perform (request : Request) : Unasked fun perform => perform request := by
  intro perform world value after ran
  cases ran

theorem Unasked.bind_of {body : Perform → Machine α} {later : Perform → α → Machine β}
    {holds : α → Prop}
    (first : Unasked body)
    (held : ∀ world value after, body (fun _ => exhausted) world = .ok value after → holds value)
    (second : ∀ value, holds value → Unasked fun perform => later perform value) :
    Unasked fun perform => body perform >>= later perform := by
  intro perform world value after ran
  dsimp only at ran ⊢
  rw [bind_apply] at ran ⊢
  cases split : body (fun _ => exhausted) world with
  | ok between middle =>
      rw [split] at ran
      rw [first perform world between middle split]
      exact second between (held world between middle split) perform middle value after ran
  | error stop middle =>
      rw [split] at ran
      cases ran

theorem Unasked.bind {body : Perform → Machine α} {later : Perform → α → Machine β}
    (first : Unasked body) (second : ∀ value, Unasked fun perform => later perform value) :
    Unasked fun perform => body perform >>= later perform :=
  first.bind_of (fun _ _ _ _ => trivial) fun value _ => second value

theorem unasked_inNested {body : Perform → Machine α} (inner : Unasked body) :
    Unasked fun perform => inNested (body perform) := by
  refine (unasked_const _).bind fun _ => (unasked_const _).bind fun _ =>
    (unasked_const _).bind fun env => ?_
  intro perform world value after ran
  dsimp only [inEnv] at ran ⊢
  split at ran
  next result middle ended =>
    rw [inner perform _ result middle ended]
    exact ran
  next => cases ran

theorem Tame.unasked {holds : α → Prop} {body : Perform → Machine α} (tame : Tame holds body) :
    Unasked body := by
  induction tame with
  | andThen tame _ first later =>
      exact first.bind_of (fun _ _ _ ran => tame.held ran) later
  | apply => exact unasked_perform _
  | applyApart => exact unasked_inNested (unasked_perform _)
  | evaluateApart => exact unasked_inNested (unasked_perform _)
  | _ => exact unasked_const _

end Unasked

theorem unasked_callNative (name : String) (key : NativeKey) (arguments : List Value) :
    Unasked fun perform => callNative .none perform name key arguments := by
  cases key with
  | standard native => exact (native.tame_call arguments).unasked
  | hosted key => exact unasked_const _

theorem unasked_callFunction (function : Function) (arguments : List Value) :
    Unasked fun perform => callFunction .none perform function arguments := by
  refine (unasked_const _).bind fun _ => ?_
  cases function.body with
  | native key arity builder =>
      refine (unasked_const _).bind fun _ => ?_
      refine (unasked_callNative _ key arguments).bind fun _ => unasked_const _
  | compiled parameters rest code captures => exact unasked_const _

theorem unasked_execute (instr : Instr) : Unasked fun perform => execute .none perform instr := by
  cases instr with
  | call symbol count =>
      refine (unasked_const _).bind fun value => ?_
      cases value with
      | function ref =>
          refine (unasked_const _).bind fun arguments => (unasked_const _).bind fun function => ?_
          exact unasked_callFunction function arguments
      | _ => exact unasked_const _
  | dispatch count =>
      refine (unasked_const _).bind fun arguments => (unasked_const _).bind fun value => ?_
      cases value with
      | function ref =>
          exact (unasked_const _).bind fun function => unasked_callFunction function arguments
      | _ => exact unasked_const _
  | _ => exact unasked_const _

theorem unasked_step : Unasked fun perform => step .none perform := by
  refine (unasked_const _).bind fun env => ?_
  cases nextInstr? env with
  | none => exact unasked_const _
  | some instr =>
      refine (unasked_const _).bind fun _ => ?_
      exact (unasked_execute instr).bind fun _ => unasked_const _

def stepsAlone : Nat → World → Option World
  | 0, world => some world
  | count + 1, world =>
    match step .none (fun _ => exhausted) world with
    | .ok true after => stepsAlone count after
    | _ => none

theorem drive_alone (perform : Perform) (fuel : Nat) {count : Nat} {world after : World}
    (steps : stepsAlone count world = some after) :
    drive .none perform (fuel + count) world = drive .none perform fuel after := by
  induction count generalizing world with
  | zero =>
      cases steps
      rfl
  | succ count ih =>
      rw [stepsAlone] at steps
      split at steps
      next between stepped =>
        have stepped := unasked_step perform world true between stepped
        dsimp only at stepped
        rw [← ih steps, ← Nat.add_assoc]
        simp only [drive, stepped]
      next => cases steps

end StackLisp.Machine
