import StackLisp.Proofs.Meaning.Task

/-!
Expressions whose code runs from its start to its end: each is right if its parts are.
-/

namespace StackLisp.Machine

open Code Form

variable {host : Host} {perform : Perform} {site : Site} {memory between after : Memory}
  {around : Option Around} {place : Place} {start : Nat} {data : List Value}
  {calls : List CallFrame} {outcome : Outcome} {way : Interruption} {value : Value} {store : Store}

theorem CodeDelivers.of_code {task other : Task}
    (delivers : CodeDelivers host perform site memory task outcome after)
    (same : ∀ place, other.code place = task.code place)
    (sameEntry : ∀ place, other.entry place = task.entry place) :
    CodeDelivers host perform site memory other outcome after := by
  intro around place start data calls lies stands
  rw [same] at lies ⊢
  rw [sameEntry]
  exact delivers lies stands

/-! Values. -/

theorem delivers_constant :
    CodeDelivers host perform site memory (.expression (.constant value)) (.values [value]) memory := by
  intro around place start data calls lies _
  exact reaches_push lies.1

theorem reaches_later (later : List Value)
    (lies : Placed site around start (laterCode place (later.map .constant))) :
    Reaches host perform ⟨site, memory, start, value :: data, calls⟩
      ⟨site, memory, start + (laterCode place (later.map .constant)).length,
        later.getLastD value :: data, calls⟩ := by
  induction later generalizing start value with
  | nil => exact reaches_refl _
  | cons next later ih =>
      have shape : laterCode place ((next :: later).map .constant) =
          Code.followedBy [.pop, .push next] (laterCode place (later.map .constant)) := by
        rw [List.map_cons, laterCode, concat_three, ← followedBy_assoc]
        rfl
      rw [shape, Placed, lies_followedBy] at lies
      obtain ⟨⟨pop, push, _⟩, rest⟩ := lies
      rw [shape, followedBy_length, ← Nat.add_assoc, List.getLastD_cons]
      exact ((reaches_pop pop).trans (reaches_push push)).trans (ih rest)

theorem delivers_quote {first : Value} {later : List Value} :
    CodeDelivers host perform site memory (.expression (.quote first later))
      (.values [later.getLastD first]) memory := by
  intro around place start data calls lies _
  have shape : Task.code place (.expression (.quote first later)) =
      Code.followedBy [.push first] (laterCode place (later.map .constant)) := rfl
  rw [shape, Placed, lies_followedBy] at lies
  obtain ⟨⟨push, _⟩, rest⟩ := lies
  rw [shape, followedBy_length, ← Nat.add_assoc]
  exact (reaches_push push).trans (reaches_later later rest)

theorem delivers_lookup {symbol : Symbol} {found : Except Error Value}
    (looked : memory.store.lookup site.scopes site.function.captures symbol = (found, store)) :
    CodeDelivers host perform site memory (.expression (.variable symbol)) (.ofExcept found)
      (memory.withStore store) := by
  intro around place start data calls lies _
  cases found with
  | ok value => exact reaches_get lies.1 looked
  | error cause => exact fails_get lies.1 looked

theorem delivers_function {ref closed : FunctionRef} (made : memory.store.closure site ref =
    (closed, store)) :
    CodeDelivers host perform site memory (.expression (.function ref)) (.values [.function closed])
      (memory.withStore store) := by
  intro around place start data calls lies _
  exact reaches_closure lies.1 made

theorem delivers_exit {exit : Exit} :
    CodeDelivers host perform site memory (.expression (.leave exit)) (.interrupted (.leaves exit))
      memory := by
  intro around place start data calls lies stands
  exact delivers_leave stands lies

/-! One expression after the other. -/

theorem delivers_emptyBlock :
    CodeDelivers host perform site memory (.expression (.block [])) (.values [.nil]) memory :=
  delivers_constant.of_code (fun _ => rfl) (fun _ => rfl)

theorem delivers_lastOfBlock {last : Expression}
    (delivers : CodeDelivers host perform site memory (.expression last) outcome after) :
    CodeDelivers host perform site memory (.expression (.block [last])) outcome after :=
  delivers.of_code (fun place => lastOfBlock_code place last) (fun _ => rfl)

theorem delivers_block {first second : Expression} {later : List Expression}
    (front : CodeDelivers host perform site memory (.expression first) (.values [value]) between)
    (back : CodeDelivers host perform site between (.expression (.block (second :: later))) outcome
      after) :
    CodeDelivers host perform site memory (.expression (.block (first :: second :: later))) outcome
      after := by
  intro around place start data calls lies stands
  have shape := block_code place first second later
  rw [Task.code, shape, Placed, lies_followedBy, lies_followedBy] at lies
  obtain ⟨firstLies, ⟨pop, _⟩, restLies⟩ := lies
  rw [Task.code, shape, followedBy_length, followedBy_length, ← Nat.add_assoc, ← Nat.add_assoc]
  have reached := (front.reaches firstLies stands).trans (reaches_pop pop)
  exact (back restLies stands).behind reached beside_refl

theorem delivers_emptyRound :
    CodeDelivers host perform site memory (.round []) (.values []) memory := by
  intro around place start data calls _ _
  exact reaches_refl _

theorem delivers_round {first : Expression} {later : List Expression}
    (front : CodeDelivers host perform site memory (.expression first) (.values [value]) between)
    (back : CodeDelivers host perform site between (.round later) outcome after) :
    CodeDelivers host perform site memory (.round (first :: later)) outcome after := by
  intro around place start data calls lies stands
  have shape : Task.code place (.round (first :: later)) =
      Code.followedBy (first.form.code place ++ [.pop]) (Task.code place (.round later)) := rfl
  rw [shape, Placed, lies_followedBy, lies_append] at lies
  obtain ⟨⟨firstLies, pop, _⟩, restLies⟩ := lies
  rw [List.length_append, ← Nat.add_assoc] at restLies
  rw [shape, followedBy_length, List.length_append, ← Nat.add_assoc, ← Nat.add_assoc]
  have reached := (front.reaches firstLies stands).trans (reaches_pop pop)
  exact (back restLies stands).behind reached beside_refl

theorem delivers_noOperand :
    CodeDelivers host perform site memory (.operands []) (.values []) memory := by
  intro around place start data calls _ _
  exact reaches_refl _

section Operand

variable {first : Expression} {later : List Expression}

theorem placed_operands (lies : Placed site around start (Task.code place (.operands (first :: later)))) :
    Placed site around start (first.form.code place) ∧
      Placed site around (start + (first.form.code place).length)
        (Task.code place.behindOperand (.operands later)) :=
  lies_followedBy.mp lies

theorem operands_length (place : Place) (first : Expression) (later : List Expression) :
    (Task.code place (.operands (first :: later))).length =
      (first.form.code place).length + (Task.code place.behindOperand (.operands later)).length :=
  followedBy_length _ _

theorem delivers_operand {values : List Value}
    (front : CodeDelivers host perform site memory (.expression first) (.values [value]) between)
    (back : CodeDelivers host perform site between (.operands later) (.values values) after) :
    CodeDelivers host perform site memory (.operands (first :: later)) (.values (value :: values))
      after := by
  intro around place start data calls lies stands
  obtain ⟨firstLies, restLies⟩ := placed_operands lies
  have reached := (front.reaches firstLies stands).trans
    (back restLies (stands.behindOperand value))
  have stacked : (value :: values).reverse ++ data = values.reverse ++ value :: data := by simp
  rw [operands_length, ← Nat.add_assoc]
  change Reaches host perform _ ⟨site, after, _, (value :: values).reverse ++ data, calls⟩
  rw [stacked]
  exact reached

theorem delivers_operandsInterrupted
    (front : CodeDelivers host perform site memory (.expression first) (.values [value]) between)
    (back : CodeDelivers host perform site between (.operands later) (.interrupted way) after) :
    CodeDelivers host perform site memory (.operands (first :: later)) (.interrupted way) after := by
  intro around place start data calls lies stands
  obtain ⟨firstLies, restLies⟩ := placed_operands lies
  have rest := (back restLies (stands.behindOperand value)).behind
    (front.reaches firstLies stands) beside_refl
  exact rest.interrupted

end Operand

/-! Choices. -/

theorem delivers_choose {test whenTrue whenFalse : Expression}
    (tested : CodeDelivers host perform site memory (.expression test) (.values [value]) between)
    (chosen : CodeDelivers host perform site between
      (.expression (if value.isTruthy then whenTrue else whenFalse)) outcome after) :
    CodeDelivers host perform site memory (.expression (.choose test whenTrue whenFalse)) outcome
      after := by
  intro around place start data calls lies stands
  obtain ⟨testLies, branch, trueLies, jump, falseLies⟩ := lies_choose lies
  have reached := (tested.reaches testLies stands).trans (reaches_branch branch)
  have length : (Task.code place (.expression (.choose test whenTrue whenFalse))).length =
      (test.form.code place).length + 1 + (whenTrue.form.code place).length + 1 +
        (whenFalse.form.code place).length := choose_length _ _ _
  by_cases truthy : value.isTruthy = true
  · rw [truthy, if_neg (Bool.noConfusion)] at reached
    rw [if_pos truthy] at chosen
    refine ((chosen trueLies stands).behind reached beside_refl).onward fun values _ => ?_
    rw [length]
    simp only [← Nat.add_assoc]
    exact reaches_jump jump
  · have falsy : value.isTruthy = false := by simpa using truthy
    rw [falsy, if_pos rfl] at reached
    rw [if_neg truthy] at chosen
    have rest := (chosen falseLies stands).behind reached beside_refl
    rw [length]
    simp only [← Nat.add_assoc]
    exact rest

theorem delivers_noCase :
    CodeDelivers host perform site memory (.expression (.cases [])) (.values [.nil]) memory :=
  delivers_constant.of_code (fun _ => rfl) (fun _ => rfl)

theorem delivers_defaultCase {default : Expression}
    (delivers : CodeDelivers host perform site memory (.expression default) outcome after) :
    CodeDelivers host perform site memory (.expression (.cases [default])) outcome after :=
  delivers.of_code (fun _ => rfl) (fun _ => rfl)

theorem delivers_cases {test chosen : Expression} {later : List Expression}
    (tested : CodeDelivers host perform site memory (.expression test) (.values [value]) between)
    (rest : CodeDelivers host perform site between
      (.expression (if value.isTruthy then chosen else .cases later)) outcome after) :
    CodeDelivers host perform site memory (.expression (.cases (test :: chosen :: later))) outcome
      after :=
  (delivers_choose tested rest).of_code (fun _ => rfl) (fun _ => rfl)

theorem delivers_noCondition {stopsOn : Bool} :
    CodeDelivers host perform site memory (.expression (.conditions stopsOn []))
      (.values [.bool !stopsOn]) memory :=
  delivers_constant.of_code (fun _ => rfl) (fun _ => rfl)

theorem delivers_lastCondition {stopsOn : Bool} {last : Expression}
    (delivers : CodeDelivers host perform site memory (.expression last) outcome after) :
    CodeDelivers host perform site memory (.expression (.conditions stopsOn [last])) outcome after :=
  delivers.of_code (fun _ => rfl) (fun _ => rfl)

section Settle

variable {stopsOn : Bool} {first second : Expression} {later : List Expression}

theorem conditions_length (place : Place) :
    (Task.code place (.expression (.conditions stopsOn (first :: second :: later)))).length =
      (first.form.code place).length + 3 +
        (Task.code place (.expression (.conditions stopsOn (second :: later)))).length :=
  settle_length ..

theorem delivers_settled
    (front : CodeDelivers host perform site memory (.expression first) (.values [value]) after)
    (settles : value.isTruthy = stopsOn) :
    CodeDelivers host perform site memory
      (.expression (.conditions stopsOn (first :: second :: later))) (.values [value]) after := by
  intro around place start data calls lies stands
  obtain ⟨firstLies, dup, branch, _, _⟩ := lies_settle lies
  have reached := ((front.reaches firstLies stands).trans (reaches_dup dup)).trans
    (reaches_branch branch)
  rw [if_pos settles] at reached
  rw [conditions_length, ← Nat.add_assoc]
  exact reached

theorem delivers_nextCondition
    (front : CodeDelivers host perform site memory (.expression first) (.values [value]) between)
    (goesOn : value.isTruthy ≠ stopsOn)
    (back : CodeDelivers host perform site between
      (.expression (.conditions stopsOn (second :: later))) outcome after) :
    CodeDelivers host perform site memory
      (.expression (.conditions stopsOn (first :: second :: later))) outcome after := by
  intro around place start data calls lies stands
  obtain ⟨firstLies, dup, branch, pop, restLies⟩ := lies_settle lies
  have branches := ((front.reaches firstLies stands).trans (reaches_dup dup)).trans
    (reaches_branch branch)
  rw [if_neg goesOn] at branches
  have reached := branches.trans (reaches_pop pop)
  rw [conditions_length, ← Nat.add_assoc]
  exact (back restLies stands).behind reached beside_refl

end Settle

/-! Names. -/

section Names

variable {symbol : Symbol} {expression : Expression} {bound : Except Error Unit}

theorem delivers_define
    (front : CodeDelivers host perform site memory (.expression expression) (.values [value]) between)
    (changed : between.store.bind site.innermost symbol value = (bound, store)) :
    CodeDelivers host perform site memory (.expression (.define symbol expression))
      (.ofExcept (bound.map fun _ => value)) (between.withStore store) := by
  intro around place start data calls lies stands
  have shape : Task.code place (.expression (.define symbol expression)) =
      expression.form.code place ++ [.dup, .put symbol] := rfl
  rw [shape, Placed, lies_append] at lies
  obtain ⟨valueLies, dup, put, _⟩ := lies
  have reached := (front.reaches valueLies stands).trans (reaches_dup dup)
  rw [shape, List.length_append, ← Nat.add_assoc]
  cases bound with
  | ok done => exact reached.trans (reaches_put put changed)
  | error cause => exact reached.fails (fails_put put changed)

theorem delivers_assign
    (front : CodeDelivers host perform site memory (.expression expression) (.values [value]) between)
    (changed : between.store.assign site.scopes site.function.captures symbol value =
      (bound, store)) :
    CodeDelivers host perform site memory (.expression (.assign symbol expression))
      (.ofExcept (bound.map fun _ => value)) (between.withStore store) := by
  intro around place start data calls lies stands
  have shape : Task.code place (.expression (.assign symbol expression)) =
      expression.form.code place ++ [.dup, .set symbol] := rfl
  rw [shape, Placed, lies_append] at lies
  obtain ⟨valueLies, dup, set, _⟩ := lies
  have reached := (front.reaches valueLies stands).trans (reaches_dup dup)
  rw [shape, List.length_append, ← Nat.add_assoc]
  cases bound with
  | ok done => exact reached.trans (reaches_set set changed)
  | error cause => exact reached.fails (fails_set set changed)

variable {symbols : List Symbol} {later contents : List Expression}

theorem delivers_noBinding
    (delivers : CodeDelivers host perform site memory (.expression (.block contents)) outcome after) :
    CodeDelivers host perform site memory (.bindings [] [] contents) outcome after :=
  delivers.of_code (fun _ => nil_followedBy _) (fun _ => rfl)

theorem bindings_code (place : Place) :
    Task.code place (.bindings (symbol :: symbols) (expression :: later) contents) =
      Code.followedBy (expression.form.code place ++ [.put symbol])
        (Task.code place (.bindings symbols later contents)) := by
  rw [Task.code, Expression.forms, bindingCode, followedBy_assoc]
  rfl

theorem delivers_binding
    (front : CodeDelivers host perform site memory (.expression expression) (.values [value]) between)
    (changed : between.store.bind site.innermost symbol value = (.ok (), store))
    (back : CodeDelivers host perform site (between.withStore store)
      (.bindings symbols later contents) outcome after) :
    CodeDelivers host perform site memory
      (.bindings (symbol :: symbols) (expression :: later) contents) outcome after := by
  intro around place start data calls lies stands
  rw [bindings_code, Placed, lies_followedBy, lies_append] at lies
  obtain ⟨⟨valueLies, put, _⟩, restLies⟩ := lies
  rw [List.length_append, ← Nat.add_assoc] at restLies
  rw [bindings_code, followedBy_length, List.length_append, ← Nat.add_assoc, ← Nat.add_assoc]
  have reached := (front.reaches valueLies stands).trans (reaches_put put changed)
  exact (back restLies stands).behind reached beside_refl

theorem delivers_bindingRefused {cause : Error}
    (front : CodeDelivers host perform site memory (.expression expression) (.values [value]) between)
    (changed : between.store.bind site.innermost symbol value = (.error cause, store)) :
    CodeDelivers host perform site memory
      (.bindings (symbol :: symbols) (expression :: later) contents) (.failure cause)
      (between.withStore store) := by
  intro around place start data calls lies stands
  rw [bindings_code, Placed, lies_followedBy, lies_append] at lies
  obtain ⟨⟨valueLies, put, _⟩, _⟩ := lies
  exact (front.reaches valueLies stands).fails (fails_put put changed)

theorem delivers_bind {ref : ScopeRef} {values : List Expression}
    (opened : memory.store.newScope (.empty "let" false) = (ref, store))
    (inner : CodeDelivers host perform (site.inScope ref) (memory.withStore store)
      (.bindings symbols values contents) outcome after) :
    CodeDelivers host perform site memory (.expression (.bind symbols values contents)) outcome
      after := by
  intro around place start data calls lies stands
  have shape : Task.code place (.expression (.bind symbols values contents)) =
      Code.followedBy [.openScope] (Task.code place.inScope (.bindings symbols values contents)) ++
        [.closeScope] := by
    rw [Task.code, Expression.form, Form.code, concat_three]
    rfl
  rw [shape, Placed, lies_append, lies_followedBy] at lies
  obtain ⟨⟨⟨opens, _⟩, innerLies⟩, closes, _⟩ := lies
  have notLast : site.scopes ≠ [] :=
    List.ne_nil_of_length_pos (Nat.lt_of_le_of_lt (Nat.zero_le _) stands.scopes)
  refine ((inner innerLies (stands.inScope ref)).behind (reaches_openScope opens opened)
    ⟨rfl, rfl⟩).onward fun results _ => ?_
  rw [followedBy_length, ← Nat.add_assoc] at closes
  rw [shape, List.length_append, followedBy_length, ← Nat.add_assoc, ← Nat.add_assoc]
  exact reaches_closeScope site closes notLast

end Names

end StackLisp.Machine
