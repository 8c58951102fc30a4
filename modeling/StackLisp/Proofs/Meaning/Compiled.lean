import StackLisp.Proofs.Form.Reading
import StackLisp.Proofs.Meaning.Correctness
import StackLisp.Proofs.Meaning.Outcomes
import StackLisp.Proofs.Meaning.Reading

/-!
What is accepted means something: a value without macros that is read as a form is the source of an
expression, and wherever the code of the form is the running program, the machine does what the
expression means.
-/

namespace StackLisp.Machine

section Runs

variable (host : Host) (perform : Perform)

/-- How a run goes on from a state, by what the running program comes to: to the end of the program,
with one value more on the stack and nothing else changed but the memory, or to a step that fails. -/
def RunsTo (world : World) (size : Nat) : Outcome → Memory → Prop
  | .values [value], memory => ∃ after, Steps host perform world after ∧ after.env.pc = some size ∧
      after.env.data.elements = value :: world.env.data.elements ∧
      after.env.calls.elements = world.env.calls.elements ∧ after.site = world.site ∧
      after.memory = memory
  | .interrupted (.stops stop), memory => ∃ between found after, Steps host perform world between ∧
      step host perform between = .error found after ∧ found.untraced = stop.untraced ∧
      after.memory = memory
  | _, _ => False

end Runs

variable {host : Host} {perform : Perform}

theorem evaluates_runs {world : World} {expression : Expression} {outcome : Outcome}
    {memory : Memory} (closed : expression.form.enclosed false = true)
    (program : world.env.function.code.toList = expression.form.code .start)
    (begins : world.env.pc = some 0) (hasScope : 0 < world.env.scopes.size)
    (base : world.env.base ≤ world.env.calls.size)
    (evaluates : Evaluates host perform world.site world.memory (.expression expression) outcome
      memory) :
    RunsTo host perform world (expression.form.code .start).length outcome memory := by
  have delivered : CodeDelivers host perform world.site world.memory (.expression expression) outcome
    memory := evaluates_delivered evaluates
  have lies : Placed world.site none 0 (expression.form.code .start) :=
    @Code.lies_toList _ [] _ [] (by rw [List.append_nil]; exact program)
  have stands : Stands .start none world.site world.env.data.elements world.env.calls.elements := by
    refine ⟨?_, ?_, world.env.calls.size_eq.symm, base⟩
    rotate_left
    · intro loop none
      cases none
    rw [world.env.scopes.size_eq] at hasScope
    exact hasScope
  have shown : Moment.Shown ⟨world.site, world.memory, 0, world.env.data.elements,
      world.env.calls.elements⟩ world := ⟨rfl, rfl, begins, rfl, rfl⟩
  have delivers := delivered lies stands
  have single := evaluates_single evaluates rfl
  have stays := evaluates_stays evaluates closed
  match outcome, single, stays with
  | .values [value], _, _ =>
      obtain ⟨after, steps, site, memory, pc, data, calls⟩ := delivers world shown
      refine ⟨after, steps, ?_, data, calls, site, memory⟩
      rw [pc]
      exact congrArg some (Nat.zero_add _)
  | .interrupted (.stops stop), _, _ => exact delivers world shown

/-- Compilation is faithful. A value that uses no macros and is accepted is the source of an
expression, and any machine that starts the code comes to what the expression comes to. -/
theorem compiled_faithful {reading : Perform} {fuel : Nat} {value : Value} {form : Form}
    {before compiled : World} (free : MacroFree before.store value)
    (accepted : Form.read reading fuel .form .start value before = .ok form compiled) :
    ∃ expression, Means compiled.store value expression ∧ expression.form = form ∧
      ∀ (host : Host) (perform : Perform) (world : World) (outcome : Outcome) (memory : Memory),
        world.env.function.code.toList = form.code .start → world.env.pc = some 0 →
        0 < world.env.scopes.size → world.env.base ≤ world.env.calls.size →
        Evaluates host perform world.site world.memory (.expression expression) outcome memory →
        RunsTo host perform world (form.code .start).length outcome memory := by
  obtain ⟨_, meant⟩ := Form.readsFree_read before.store reading fuel .start value free before form
    compiled (.refl _) accepted
  obtain ⟨expression, means, rfl⟩ := meant compiled.store (.refl _)
  have closed : expression.form.enclosed false = true :=
    (Form.tame_read fuel .form .start value).held accepted
  refine ⟨expression, means, rfl, ?_⟩
  intro host perform world outcome memory program begins hasScope base evaluates
  exact evaluates_runs closed program begins hasScope base evaluates

/-! A loop that is left at once, from its source to its end. -/

def leftLoop : Value :=
  .pair 0 (.symbol ⟨"while", 0, false⟩)
    (.pair 1 (.bool true) (.pair 2 (.pair 3 (.symbol ⟨"break", 1, false⟩) .nil) .nil))

def leftLoopForm : Form := .whileLoop (.constant (.bool true)) [.leave .leaveLoop]

def starting (form : Form) : World :=
  let program : Function := .program "program" (form.code .start).toArray
  ⟨default, .empty, { Env.fresh with function := program }, .empty⟩

theorem leftLoop_free : MacroFree Store.empty leftLoop := by
  refine .intro rfl fun part member => ?_
  have parts : leftLoop.parts Store.empty =
      [.bool true, .pair 3 (.symbol ⟨"break", 1, false⟩) .nil] := rfl
  rw [parts] at member
  rcases List.mem_pair.mp member with rfl | rfl
  · exact .intro rfl fun _ member => nomatch member
  · exact .intro rfl fun _ member => nomatch member

theorem means_bool {store : Store} {expression : Expression} {b : Bool}
    (means : Means store (.bool b) expression) : expression = .constant (.bool b) := by
  cases means with
  | constant => rfl
  | quote shape | conjunction shape | disjunction shape | cond shape | define shape | assign shape
  | choose shape | chooseTrue shape | block shape | function shape | anonymous shape
  | namedFunction shape | bind shape | whileLoop shape | forLoop shape | leave shape | call shape
  | dispatch shape => cases shape

theorem means_break {store : Store} {expression : Expression} {mark id : Nat}
    (means : Means store (.pair mark (.symbol ⟨"break", id, false⟩) .nil) expression) :
    expression = .leave .leaveLoop := by
  cases means with
  | leave shape =>
      cases shape
      rfl
  | constant shape | quote shape | conjunction shape | disjunction shape | cond shape | define shape
  | assign shape | choose shape | chooseTrue shape | block shape | function shape | anonymous shape
  | namedFunction shape | bind shape | whileLoop shape | forLoop shape | call shape
  | dispatch shape => cases shape

theorem means_leftLoop {store : Store} {expression : Expression}
    (means : Means store leftLoop expression) :
    expression = .whileLoop (.constant (.bool true)) [.leave .leaveLoop] := by
  cases means with
  | whileLoop shape test contents =>
      cases shape
      cases contents with
      | cons inner none =>
          cases none
          rw [means_bool test, means_break inner]
  | constant shape | quote shape | conjunction shape | disjunction shape | cond shape | define shape
  | assign shape | choose shape | chooseTrue shape | block shape | function shape | anonymous shape
  | namedFunction shape | bind shape | forLoop shape | leave shape | call shape
  | dispatch shape => cases shape

theorem compiled_faithful_leftLoop :
    MacroFree Store.empty leftLoop ∧
      Form.read (fun _ => exhausted) 3 .form .start leftLoop (starting leftLoopForm) =
        .ok leftLoopForm (starting leftLoopForm) ∧
      RunsTo Host.none (fun _ => exhausted) (starting leftLoopForm)
        (leftLoopForm.code .start).length (.values [.nil]) (starting leftLoopForm).memory := by
  have accepted : Form.read (fun _ => exhausted) 3 .form .start leftLoop (starting leftLoopForm) =
      .ok leftLoopForm (starting leftLoopForm) := rfl
  refine ⟨leftLoop_free, accepted, ?_⟩
  obtain ⟨expression, means, _, runs⟩ := compiled_faithful leftLoop_free accepted
  obtain rfl := means_leftLoop means
  refine runs Host.none _ _ _ _ rfl rfl Nat.one_pos (Nat.zero_le _) ?_
  exact .whileLeft .constant rfl (.first rfl .leave)

end StackLisp.Machine
