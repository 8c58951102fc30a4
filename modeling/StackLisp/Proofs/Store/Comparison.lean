import Mathlib.Data.List.ProdSigma
import StackLisp.Store.Equality

/-!
Comparisons of values come to an end. Going down, a comparison meets pairs of containers; a pair that
is under comparison already is not entered again, and a store has but so many pairs. So the bound that
is set to the depth of comparisons plays no part in what they come to.
-/

namespace StackLisp.Store

variable (store : Store)

def containers : List Container :=
  (List.range store.arrays.size).map .array ++ (List.range store.records.size).map .record ++
    (List.range store.pointers.size).map .pointer

def unmet (met : Meetings) : Nat :=
  ((store.containers ×ˢ store.containers).filter (· ∉ met)).length

theorem containers_length : store.containers.length = store.depthBound := by
  simp [containers, depthBound, Nat.add_assoc]

theorem unmet_nil : store.unmet [] = store.depthBound * store.depthBound := by
  have all : (store.containers ×ˢ store.containers).filter (· ∉ ([] : Meetings)) =
      store.containers ×ˢ store.containers := List.filter_eq_self.mpr (by simp)
  rw [unmet, all, List.length_product, containers_length]

variable {store} {met : Meetings}

theorem unmet_cons_lt {left right : Container} (leftKnown : left ∈ store.containers)
    (rightKnown : right ∈ store.containers) (new : (left, right) ∉ met) :
    store.unmet ((left, right) :: met) < store.unmet met := by
  have fewer : (store.containers ×ˢ store.containers).filter (· ∉ (left, right) :: met) =
      ((store.containers ×ˢ store.containers).filter (· ∉ met)).filter (· ≠ (left, right)) := by
    rw [List.filter_filter]
    apply List.filter_congr
    intro pair _
    simp [List.mem_cons]
  rw [unmet, unmet, fewer, List.length_filter_lt_length_iff_exists]
  refine ⟨(left, right), ?_, by simp⟩
  exact List.mem_filter.mpr ⟨List.mem_product.mpr ⟨leftKnown, rightKnown⟩, by simpa using new⟩

/-! What a comparison asks for. -/

def opposite (store : Store) : Container → Container → List (Value × Value)
  | .array ref, .array ref' => (store.array ref).toList.zip (store.array ref').toList
  | .record ref, .record ref' =>
    ((store.record ref).fields.pairs.map Prod.snd).zip ((store.record ref').fields.pairs.map Prod.snd)
  | _, _ => []

theorem mem_containers_array {ref : ArrayRef} {item : Value}
    (member : item ∈ (store.array ref).toList) :
    Container.array ref ∈ store.containers := by
  by_cases known : ref < store.arrays.size
  · simp [containers, known]
  · simp [Store.array, Array.getD, known] at member

theorem mem_containers_record {ref : RecordRef} {field : Key × Value}
    (member : field ∈ (store.record ref).fields.pairs) :
    Container.record ref ∈ store.containers := by
  by_cases known : ref < store.records.size
  · simp [containers, known]
  · have none : (store.record ref).fields.pairs = [] := by
      simp only [Store.record, Array.getD, known, ↓reduceDIte]
      rfl
    simp [none] at member

theorem mem_containers_pointer {ref : PointerRef} {target : Value}
    (member : target ∈ store.pointers[ref]?.toList) : Container.pointer ref ∈ store.containers := by
  have known : ref < store.pointers.size := by
    by_contra beyond
    simp [beyond] at member
  simp [containers, known]

theorem known_of_opposite {left right : Container} {pair : Value × Value}
    (member : pair ∈ store.opposite left right) :
    left ∈ store.containers ∧ right ∈ store.containers := by
  obtain ⟨value, value'⟩ := pair
  cases left with
  | array ref =>
      cases right with
      | array ref' =>
          obtain ⟨inLeft, inRight⟩ := List.of_mem_zip member
          exact ⟨mem_containers_array inLeft, mem_containers_array inRight⟩
      | _ => cases member
  | record ref =>
      cases right with
      | record ref' =>
          obtain ⟨inLeft, inRight⟩ := List.of_mem_zip member
          obtain ⟨field, fieldIn, _⟩ := List.mem_map.mp inLeft
          obtain ⟨field', fieldIn', _⟩ := List.mem_map.mp inRight
          exact ⟨mem_containers_record fieldIn, mem_containers_record fieldIn'⟩
      | _ => cases member
  | pointer ref => cases member

structure Comparison where
  met : Meetings
  left : Value
  right : Value

inductive Asks (store : Store) : Comparison → Comparison → Prop
  | head {met mark mark' head head' tail tail'} :
    Asks store ⟨met, head, head'⟩ ⟨met, .pair mark head tail, .pair mark' head' tail'⟩
  | tail {met mark mark' head head' tail tail'} :
    Asks store ⟨met, tail, tail'⟩ ⟨met, .pair mark head tail, .pair mark' head' tail'⟩
  | item {met ref ref' value value'} :
    (.array ref, .array ref') ∉ met → (value, value') ∈ store.opposite (.array ref) (.array ref') →
    Asks store ⟨(.array ref, .array ref') :: met, value, value'⟩ ⟨met, .array ref, .array ref'⟩
  | field {met ref ref' value value'} :
    (.record ref, .record ref') ∉ met →
    (value, value') ∈ store.opposite (.record ref) (.record ref') →
    Asks store ⟨(.record ref, .record ref') :: met, value, value'⟩ ⟨met, .record ref, .record ref'⟩

/-- Every chain of comparisons that lead to one another ends: fewer and fewer pairs of containers are
left to be met, and between two of them the values become smaller. -/
theorem asks_wellFounded (store : Store) : WellFounded store.Asks := by
  let measure (comparison : Comparison) : Nat × Nat :=
    (store.unmet comparison.met, sizeOf comparison.left)
  refine Subrelation.wf ?_ (InvImage.wf measure (Prod.lex Nat.lt_wfRel Nat.lt_wfRel).wf)
  intro asked asking asks
  cases asks with
  | head =>
      refine Prod.Lex.right _ ?_
      simp only [Value.pair.sizeOf_spec]
      exact Nat.lt_of_lt_of_le (Nat.lt_add_of_pos_left (by omega)) (Nat.le_add_right _ _)
  | tail =>
      refine Prod.Lex.right _ ?_
      simp only [Value.pair.sizeOf_spec]
      exact Nat.lt_add_of_pos_left (by omega)
  | item new member =>
      obtain ⟨left, right⟩ := known_of_opposite member
      exact Prod.Lex.left _ _ (unmet_cons_lt left right new)
  | field new member =>
      obtain ⟨left, right⟩ := known_of_opposite member
      exact Prod.Lex.left _ _ (unmet_cons_lt left right new)

/-! The bound on the depth. -/

theorem allEqual_congr {equal other : Value → Value → Bool} {values values' : List Value}
    (same : ∀ value value', (value, value') ∈ values.zip values' →
      equal value value' = other value value') :
    allEqual equal values values' = allEqual other values values' := by
  induction values generalizing values' with
  | nil => cases values' <;> rfl
  | cons value later ih =>
      cases values' with
      | nil => rfl
      | cons value' later' =>
          rw [allEqual, allEqual, same value value' (by simp),
            ih fun item item' member => same item item' (by simp [member])]

theorem fieldsEqual_congr {equal other : Value → Value → Bool} {fields fields' : List (Key × Value)}
    (same : ∀ value value', (value, value') ∈ (fields.map Prod.snd).zip (fields'.map Prod.snd) →
      equal value value' = other value value') :
    fieldsEqual equal fields fields' = fieldsEqual other fields fields' := by
  induction fields generalizing fields' with
  | nil => cases fields' <;> rfl
  | cons field later ih =>
      cases fields' with
      | nil => rfl
      | cons field' later' =>
          rw [fieldsEqual, fieldsEqual, same field.2 field'.2 (by simp),
            ih fun value value' member => same value value' (by simp [member])]

theorem contentsEqual_congr {equal other : Value → Value → Bool} {left right : Container}
    (same : ∀ value value', (value, value') ∈ store.opposite left right →
      equal value value' = other value value') :
    store.contentsEqual equal left right = store.contentsEqual other left right := by
  cases left with
  | array ref =>
      cases right with
      | array ref' => simp only [contentsEqual, allEqual_congr same]
      | _ => rfl
  | record ref =>
      cases right with
      | record ref' => simp only [contentsEqual, fieldsEqual_congr same]
      | _ => rfl
  | pointer ref => rfl

/-- A comparison that goes down without a bound: what it answers follows from what it answers of the
values that it leads to. -/
def Answers (store : Store) (answer : Meetings → Value → Value → Bool) : Prop :=
  ∀ met left right, answer met left right =
    equalWith (fun container container' =>
      container == container' || met.contains (container, container') ||
        store.contentsEqual (answer ((container, container') :: met)) container container') left right

theorem inside_congr (equal other : Meetings → Value → Value → Bool) {left right : Container}
    (same : ∀ value value', (left, right) ∉ met → (value, value') ∈ store.opposite left right →
      equal ((left, right) :: met) value value' = other ((left, right) :: met) value value') :
    (left == right || met.contains (left, right) ||
        store.contentsEqual (equal ((left, right) :: met)) left right) =
      (left == right || met.contains (left, right) ||
        store.contentsEqual (other ((left, right) :: met)) left right) := by
  by_cases member : (left, right) ∈ met
  · simp [member]
  · rw [contentsEqual_congr fun value value' opposite => same value value' member opposite]

theorem Answers.equalAt {answer : Meetings → Value → Value → Bool} (answers : store.Answers answer)
    {fuel : Nat} (enough : store.unmet met < fuel) (left right : Value) :
    answer met left right = store.equalAt fuel met left right := by
  induction fuel generalizing met left right with
  | zero => exact absurd enough (Nat.not_lt_zero _)
  | succ fuel ih =>
      rw [answers, Store.equalAt]
      congr 1
      funext container container'
      refine inside_congr answer (fun met => store.equalAt fuel met) ?_
      intro value value' new member
      obtain ⟨leftKnown, rightKnown⟩ := known_of_opposite member
      have fewer := unmet_cons_lt leftKnown rightKnown new
      exact ih (Nat.lt_of_lt_of_le fewer (Nat.le_of_lt_succ enough)) value value'

theorem equalAt_stable {fuel fuel' : Nat} (enough : store.unmet met < fuel)
    (enough' : store.unmet met < fuel') (left right : Value) :
    store.equalAt fuel met left right = store.equalAt fuel' met left right := by
  induction fuel generalizing met left right fuel' with
  | zero => exact absurd enough (Nat.not_lt_zero _)
  | succ fuel ih =>
      cases fuel' with
      | zero => exact absurd enough' (Nat.not_lt_zero _)
      | succ fuel' =>
          rw [Store.equalAt, Store.equalAt]
          congr 1
          funext container container'
          refine inside_congr (fun met => store.equalAt fuel met)
            (fun met => store.equalAt fuel' met) ?_
          intro value value' new member
          obtain ⟨leftKnown, rightKnown⟩ := known_of_opposite member
          have fewer := unmet_cons_lt leftKnown rightKnown new
          exact ih (Nat.lt_of_lt_of_le fewer (Nat.le_of_lt_succ enough))
            (Nat.lt_of_lt_of_le fewer (Nat.le_of_lt_succ enough')) value value'

theorem answers_equalAt (store : Store) :
    store.Answers fun met => store.equalAt (store.unmet met + 1) met := by
  intro met left right
  simp only [Store.equalAt]
  congr 1
  funext container container'
  refine inside_congr (fun inner => store.equalAt (store.unmet met) inner)
    (fun inner => store.equalAt (store.unmet inner + 1) inner) ?_
  intro value value' new member
  obtain ⟨leftKnown, rightKnown⟩ := known_of_opposite member
  exact equalAt_stable (unmet_cons_lt leftKnown rightKnown new) (Nat.lt_succ_self _) value value'

theorem equal_unbounded (store : Store) : ∃ answer, store.Answers answer ∧
    (∀ other, store.Answers other → other = answer) ∧ answer [] = store.equal := by
  refine ⟨_, answers_equalAt store, fun other answers => ?_, ?_⟩
  · funext met left right
    exact answers.equalAt (Nat.lt_succ_self _) left right
  · funext left right
    rw [unmet_nil]
    rfl

end StackLisp.Store
