import StackLisp.Proofs.Form.Layout
import StackLisp.Proofs.Meaning.Evaluation

/-!
How evaluations end: expressions come to one value, and nothing leaves a loop that it does not stand
in.
-/

namespace StackLisp

namespace Outcome

def isSingle : Outcome → Bool
  | .values [_] => true
  | .values _ => false
  | .interrupted _ => true

def stays : Outcome → Bool
  | .interrupted (.leaves _) => false
  | _ => true

theorem ofExcept_single (result : Except Error Value) : (ofExcept result).isSingle = true := by
  cases result with
  | ok value => rfl
  | error cause => rfl

theorem ofExcept_stays (result : Except Error Value) : (ofExcept result).stays = true := by
  cases result with
  | ok value => rfl
  | error cause => rfl

end Outcome

namespace Task

def isSingle : Task → Bool
  | .expression _ => true
  | .bindings _ _ _ => true
  | .call _ _ => true
  | _ => false

def enclosed : Task → Bool
  | .expression whole => whole.form.enclosed false
  | .operands expressions => Form.allEnclosed false (Expression.forms expressions)
  | .bindings _ values contents =>
    Form.allEnclosed false (Expression.forms values) &&
      (Expression.block contents).form.enclosed false
  | .round contents => Form.allEnclosed false (Expression.forms contents)
  | .cycle test _ _ => test.form.enclosed false
  | .steps test _ _ => test.form.enclosed false
  | .call _ _ => true

end Task

namespace Machine

variable {host : Host} {perform : Perform} {site : Site} {memory after : Memory} {task : Task}
  {outcome : Outcome}

theorem evaluates_single (evaluates : Evaluates host perform site memory task outcome after)
    (single : task.isSingle = true) : outcome.isSingle = true := by
  induction evaluates with
  | lookup | define | assign => exact Outcome.ofExcept_single _
  | lastOfBlock _ ih | lastCondition _ ih | defaultCase _ ih | bind _ _ ih | noBinding _ ih => exact ih rfl
  | block _ _ _ ih | choose _ _ _ ih | nextCondition _ _ _ _ ih | cases _ _ _ ih
  | call _ _ _ _ ih | dispatch _ _ _ _ _ ih | binding _ _ _ _ ih | whileAgain _ _ _ _ _ _ _ ih => exact ih rfl
  | operand | noOperand | emptyRound | round | cycleEnds | cycleRound | cycleLeft | stepDone
  | stepAgain | stepLeft => cases single
  | _ => rfl

theorem enclosed_first {part : Expression} (first : task.first? = some part)
    (enclosed : task.enclosed = true) : part.form.enclosed false = true := by
  unfold Task.first? at first
  split at first
  all_goals cases first
  all_goals
    simp only [Task.enclosed, Expression.form, Expression.forms, Expression.conditionsForm,
      Expression.casesForm, Form.body, Form.enclosed, Form.allEnclosed, Bool.and_eq_true] at enclosed
    simp only [enclosed]

/-- Only a way out of a loop that stands in none leaves one. -/
theorem evaluates_stays (evaluates : Evaluates host perform site memory task outcome after)
    (enclosed : task.enclosed = true) : outcome.stays = true := by
  induction evaluates with
  | lookup | define | assign => exact Outcome.ofExcept_stays _
  | leave => cases enclosed
  | first isFirst _ ih => exact ih (enclosed_first isFirst enclosed)
  | lastOfBlock _ ih => exact ih (Bool.and_eq_true_iff.mp enclosed).1
  | lastCondition _ ih | defaultCase _ ih => exact ih enclosed
  | block _ _ _ ih | nextCondition _ _ _ _ ih | round _ _ _ ih | operandsInterrupted _ _ _ ih =>
      exact ih (Bool.and_eq_true_iff.mp enclosed).2
  | choose _ _ _ ih | cases _ _ _ ih =>
      obtain ⟨front, whenFalse⟩ := Bool.and_eq_true_iff.mp enclosed
      obtain ⟨_, whenTrue⟩ := Bool.and_eq_true_iff.mp front
      refine ih ?_
      split
      · exact whenTrue
      · exact whenFalse
  | bind _ _ ih => exact ih enclosed
  | whileAgain _ _ _ _ _ _ _ ih => exact ih enclosed
  | forStart _ _ ih =>
      simp only [Task.enclosed, Expression.form, Form.enclosed, Bool.and_eq_true] at enclosed
      exact ih enclosed.1.1.1
  | forInterrupted _ _ _ _ ih =>
      simp only [Task.enclosed, Expression.form, Form.enclosed, Bool.and_eq_true] at enclosed
      exact ih enclosed.1.1.2
  | call _ _ _ _ ih | dispatch _ _ _ _ _ ih => exact ih rfl
  | callInterrupted _ ih => exact ih enclosed
  | dispatchInterrupted _ _ _ ih => exact ih (Bool.and_eq_true_iff.mp enclosed).2
  | noBinding _ ih => exact ih enclosed
  | binding _ _ _ _ ih =>
      obtain ⟨values, block⟩ := Bool.and_eq_true_iff.mp enclosed
      exact ih (Bool.and_eq_true_iff.mpr ⟨(Bool.and_eq_true_iff.mp values).2, block⟩)
  | cycleRound _ _ _ _ _ _ _ ih | stepDone _ _ _ ih | stepAgain _ _ _ ih => exact ih enclosed
  | _ => rfl

end Machine

end StackLisp
