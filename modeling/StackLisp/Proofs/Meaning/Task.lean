import StackLisp.Proofs.Meaning.Delivery

/-!
The code that a task is carried out by, and what it means that the code is right: wherever it lies,
whatever loop is around it and whatever is on the stacks, it leads to what comes of the task. A call
has no code of its own, and is right in any instruction that calls.
-/

namespace StackLisp

open Form

def cycleCode (place : Place) (test step : Expression) (contents : List Expression) : Code :=
  let test := test.form.code place
  let round := roundCode place.inLoop (Expression.forms contents)
  let step := step.form.code place.inLoop ++ [.pop]
  Code.loop test (round.followedBy step) (test.length + 1 + round.length)

namespace Task

def code (place : Place) : Task → Code
  | .expression whole => whole.form.code place
  | .operands expressions => operandCode place (Expression.forms expressions)
  | .bindings symbols values contents =>
    (bindingCode place symbols (Expression.forms values)).followedBy
      ((Expression.block contents).form.code place)
  | .round contents => roundCode place (Expression.forms contents)
  | .cycle test step contents | .steps test step contents => cycleCode place test step contents
  | .call _ _ => []

def entry (place : Place) : Task → Nat
  | .steps test _ contents =>
    (test.form.code place).length + 1 +
      (roundCode place.inLoop (Expression.forms contents)).length
  | _ => 0

end Task

namespace Machine

section Delivered

variable (host : Host) (perform : Perform)

abbrev Placed (site : Site) (around : Option Around) (start : Nat) (piece : Code) : Prop :=
  Code.Lies site.function.code (around.map Around.target) start start piece

def CodeDelivers (site : Site) (memory : Memory) (task : Task) (outcome : Outcome)
    (after : Memory) : Prop :=
  ∀ ⦃around : Option Around⦄ ⦃place : Place⦄ ⦃start : Nat⦄ ⦃data : List Value⦄
    ⦃calls : List CallFrame⦄,
    Placed site around start (task.code place) → Stands place around site data calls →
    Delivers host perform around ⟨site, memory, start + task.entry place, data, calls⟩
      (fun values after => ⟨site, after, start + (task.code place).length, values.reverse ++ data,
        calls⟩) outcome after

def CallDelivers (site : Site) (memory : Memory) (function : Function) (arguments : List Value)
    (outcome : Outcome) (after : Memory) : Prop :=
  ∀ (around : Option Around) ⦃start : Moment⦄ ⦃pc : Nat⦄ ⦃data : List Value⦄
    ⦃calls : List CallFrame⦄,
    calls.length = site.depth → site.base ≤ site.depth →
    (∀ finish, Leads (callFunction host perform function arguments)
      ⟨site, memory, pc, data, calls⟩ finish → Reaches host perform start finish) →
    (∀ stop left, Breaks (callFunction host perform function arguments)
      ⟨site, memory, pc, data, calls⟩ stop left → Fails host perform start stop left) →
    Delivers host perform around start
      (fun values after => ⟨site, after, pc + 1, values.reverse ++ data, calls⟩) outcome after

def Delivered (site : Site) (memory : Memory) : Task → Outcome → Memory → Prop
  | .call callee arguments => CallDelivers host perform site memory callee arguments
  | task => CodeDelivers host perform site memory task

end Delivered

open Code Form

variable {host : Host} {perform : Perform} {site : Site} {memory between after : Memory}
  {around : Option Around} {place : Place} {start : Nat} {data : List Value}
  {calls : List CallFrame} {outcome : Outcome} {way : Interruption}

theorem block_code (place : Place) (first second : Expression) (later : List Expression) :
    (Expression.block (first :: second :: later)).form.code place =
      (first.form.code place).followedBy
        (Code.followedBy [.pop] ((Expression.block (second :: later)).form.code place)) := by
  simp [Expression.form, Expression.forms, Form.body, Form.code, laterCode, concat]

theorem lastOfBlock_code (place : Place) (last : Expression) :
    (Expression.block [last]).form.code place = last.form.code place := by
  simp [Expression.form, Expression.forms, Form.body, Form.code, laterCode]

theorem placed_first {task : Task} {part : Expression} (first : task.first? = some part)
    (lies : Placed site around start (task.code place)) :
    Placed site around start (part.form.code place) := by
  unfold Task.first? at first
  split at first
  all_goals cases first
  · rw [Task.code, block_code] at lies
    exact (lies_followedBy.mp lies).1
  · exact (lies_choose lies).1
  · exact (lies_settle lies).1
  · exact (lies_choose lies).1
  · exact (lies_append.mp lies).1
  · exact (lies_append.mp lies).1
  · exact (lies_loop (lies_append.mp lies).1).1
  · exact (lies_followedBy.mp (lies_append.mp lies).1).1
  · exact (lies_followedBy.mp lies).1
  · exact (lies_append.mp (lies_followedBy.mp (lies_followedBy.mp lies).1).1).1
  · exact (lies_append.mp (lies_followedBy.mp lies).1).1
  · exact (lies_loop lies).1

theorem entry_of_first {task : Task} {part : Expression} (first : task.first? = some part) :
    task.entry place = 0 := by
  cases task with
  | steps => cases first
  | _ => rfl

theorem delivered_of_code {task : Task} (noCall : ∀ function arguments, task ≠ .call function arguments)
    (delivers : CodeDelivers host perform site memory task outcome after) :
    Delivered host perform site memory task outcome after := by
  cases task with
  | call function arguments => exact absurd rfl (noCall function arguments)
  | _ => exact delivers

theorem delivered_first {task : Task} {part : Expression} (first : task.first? = some part)
    (evaluated : CodeDelivers host perform site memory (.expression part) (.interrupted way) after) :
    Delivered host perform site memory task (.interrupted way) after := by
  refine delivered_of_code ?_ fun around place start data calls lies stands => ?_
  · rintro function arguments rfl
    cases first
  · rw [entry_of_first first]
    exact (evaluated (placed_first first lies) stands).interrupted

theorem CodeDelivers.reaches {expression : Expression} {value : Value}
    (evaluated : CodeDelivers host perform site memory (.expression expression) (.values [value])
      after)
    (lies : Placed site around start (expression.form.code place))
    (stands : Stands place around site data calls) :
    Reaches host perform ⟨site, memory, start, data, calls⟩
      ⟨site, after, start + (expression.form.code place).length, value :: data, calls⟩ :=
  evaluated lies stands

theorem beside_refl {pc pc' : Nat} {data' : List Value} {memory' : Memory} :
    Moment.Beside ⟨site, memory, pc, data, calls⟩ ⟨site, memory', pc', data', calls⟩ := ⟨rfl, rfl⟩

end Machine

end StackLisp
