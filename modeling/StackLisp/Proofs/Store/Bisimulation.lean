import Mathlib.Data.List.Forall2
import Mathlib.Logic.Relation
import StackLisp.Proofs.Store.Comparison

/-!
Equality is bisimilarity: two values are equal when some relation holds of them that only holds of
values of one kind with equal scalars and related parts. Containers that are met again on the way
down need no second look, as whatever else tells them apart is found where they were met first.
-/

namespace StackLisp

theorem Binary64.equal_iff {x y : Binary64} :
    x.equal y = true ↔ x.isNaN = false ∧ y.isNaN = false ∧ x.orderKey = y.orderKey := by
  by_cases number : x.isNaN || y.isNaN
  · simp only [equal, compare?, number, ↓reduceIte]
    simp only [Bool.or_eq_true] at number
    constructor
    · intro same
      cases same
    · rintro ⟨left, right, _⟩
      simp [left, right] at number
  · simp only [equal, compare?, number, Bool.false_eq_true, ↓reduceIte]
    simp only [Bool.or_eq_true, not_or, Bool.not_eq_true] at number
    simp [number]

namespace Key

def trait : Key → Key
  | .symbol s => .symbol ⟨"", s.id, false⟩
  | key => key

theorem beq_iff {key key' : Key} : (key == key') = true ↔ key.trait = key'.trait := by
  cases key <;> cases key' <;> simp [BEq.beq, same, trait]

instance : EquivBEq Key where
  rfl := beq_iff.mpr rfl
  symm same := beq_iff.mpr (beq_iff.mp same).symm
  trans same same' := beq_iff.mpr ((beq_iff.mp same).trans (beq_iff.mp same'))

end Key

namespace Store

variable {store : Store}

/-- Values of one kind: their scalars are equal and their parts are related; functions, pointers and
reflections are the same. -/
inductive Alike (store : Store) (related : Value → Value → Prop) : Value → Value → Prop
  | nil : Alike store related .nil .nil
  | endMark : Alike store related .endMark .endMark
  | int {n} : Alike store related (.int n) (.int n)
  | uint {n} : Alike store related (.uint n) (.uint n)
  | float {x y} : x.equal y = true → Alike store related (.float x) (.float y)
  | char {c} : Alike store related (.char c) (.char c)
  | bool {b} : Alike store related (.bool b) (.bool b)
  | text {s} : Alike store related (.text s) (.text s)
  | symbol {s s'} : s.same s' = true → Alike store related (.symbol s) (.symbol s')
  | pair {mark mark' head head' tail tail'} : related head head' → related tail tail' →
    Alike store related (.pair mark head tail) (.pair mark' head' tail')
  | array {ref ref'} :
    List.Forall₂ related (store.array ref).toList (store.array ref').toList →
    Alike store related (.array ref) (.array ref')
  | record {ref ref'} :
    (store.record ref).typeName = (store.record ref').typeName →
    List.Forall₂ (fun field field' => (field.1 == field'.1) = true ∧ related field.2 field'.2)
      (store.record ref).fields.pairs (store.record ref').fields.pairs →
    Alike store related (.record ref) (.record ref')
  | function {ref} : Alike store related (.function ref) (.function ref)
  | pointer {ref} : Alike store related (.pointer ref) (.pointer ref)
  | reflect {mark} : Alike store related (.reflect mark) (.reflect mark)

/-- A relation that only holds of values that are alike by it. -/
def Bisimulation (store : Store) (related : Value → Value → Prop) : Prop :=
  ∀ left right, related left right → store.Alike related left right

def Bisimilar (store : Store) (left right : Value) : Prop :=
  ∃ related, store.Bisimulation related ∧ related left right

structure Heap (store : Store) (values : Value → Prop) : Prop where
  head {mark head tail} : values (.pair mark head tail) → values head
  tail {mark head tail} : values (.pair mark head tail) → values tail
  item {ref item} : values (.array ref) → item ∈ (store.array ref).toList → values item
  field {ref field} : values (.record ref) → field ∈ (store.record ref).fields.pairs → values field.2
  number {x} : values (.float x) → x.isNaN = false
  marked {mark head head' tail tail'} : values (.pair mark head tail) →
    values (.pair mark head' tail') → head = head' ∧ tail = tail'

variable {related other : Value → Value → Prop} {left middle right : Value}

theorem Alike.mono (alike : store.Alike related left right)
    (implied : ∀ value value', related value value' → other value value') :
    store.Alike other left right := by
  cases alike with
  | pair heads tails => exact .pair (implied _ _ heads) (implied _ _ tails)
  | array items => exact .array (items.imp implied)
  | record names fields =>
      exact .record names (fields.imp fun _ _ field => ⟨field.1, implied _ _ field.2⟩)
  | float same => exact .float same
  | symbol same => exact .symbol same
  | _ => constructor

theorem Alike.symm (alike : store.Alike related left right) :
    store.Alike (flip related) right left := by
  cases alike with
  | pair heads tails => exact .pair heads tails
  | array items => exact .array items.flip
  | record names fields =>
      exact .record names.symm ((fields.imp fun _ _ field => ⟨BEq.symm field.1, field.2⟩).flip)
  | float same =>
      obtain ⟨leftNumber, rightNumber, place⟩ := Binary64.equal_iff.mp same
      exact .float (Binary64.equal_iff.mpr ⟨rightNumber, leftNumber, place.symm⟩)
  | symbol same =>
      simp only [Symbol.same, Bool.and_eq_true, beq_iff_eq] at same
      exact .symbol (by simp [Symbol.same, same.1, same.2])
  | _ => constructor

theorem forall₂_comp {α : Type} {holds holds' holds'' : α → α → Prop} {xs ys zs : List α}
    (step : ∀ x y z, holds x y → holds' y z → holds'' x z) (first : List.Forall₂ holds xs ys)
    (second : List.Forall₂ holds' ys zs) : List.Forall₂ holds'' xs zs := by
  induction first generalizing zs with
  | nil =>
      cases second
      exact .nil
  | cons head _ ih =>
      cases second with
      | cons head' later' => exact .cons (step _ _ _ head head') (ih later')

theorem Alike.comp (first : store.Alike related left middle)
    (second : store.Alike other middle right) :
    store.Alike (Relation.Comp related other) left right := by
  cases first with
  | pair heads tails =>
      cases second with
      | pair heads' tails' => exact .pair ⟨_, heads, heads'⟩ ⟨_, tails, tails'⟩
  | array items =>
      cases second with
      | array items' => exact .array (forall₂_comp (fun _ y _ one two => ⟨y, one, two⟩) items items')
  | record names fields =>
      cases second with
      | record names' fields' =>
          refine .record (names.trans names') (forall₂_comp ?_ fields fields')
          rintro _ y _ ⟨keys, values⟩ ⟨keys', values'⟩
          exact ⟨BEq.trans keys keys', y.2, values, values'⟩
  | float same =>
      cases second with
      | float same' =>
          obtain ⟨leftNumber, _, place⟩ := Binary64.equal_iff.mp same
          obtain ⟨_, rightNumber, place'⟩ := Binary64.equal_iff.mp same'
          exact .float (Binary64.equal_iff.mpr ⟨leftNumber, rightNumber, place.trans place'⟩)
  | symbol same =>
      cases second with
      | symbol same' =>
          simp only [Symbol.same, Bool.and_eq_true, beq_iff_eq] at same same'
          exact .symbol (by simp [Symbol.same, same.1, same.2, same'.1, same'.2])
  | _ =>
      cases second
      constructor

/-! What equality finds, if what is inside of containers is left to another comparison. -/

theorem allEqual_iff {equal : Value → Value → Bool} {values values' : List Value} :
    allEqual equal values values' = true ↔
      List.Forall₂ (fun value value' => equal value value' = true) values values' := by
  induction values generalizing values' with
  | nil => cases values' <;> simp [allEqual]
  | cons value later ih => cases values' <;> simp [allEqual, ih]

theorem fieldsEqual_iff {equal : Value → Value → Bool} {fields fields' : List (Key × Value)} :
    fieldsEqual equal fields fields' = true ↔
      List.Forall₂ (fun field field' => (field.1 == field'.1) = true ∧ equal field.2 field'.2 = true)
        fields fields' := by
  induction fields generalizing fields' with
  | nil => cases fields' <;> simp [fieldsEqual]
  | cons field later ih => cases fields' <;> simp [fieldsEqual, ih]

theorem arraysEqual_iff {equal : Value → Value → Bool} {ref ref' : ArrayRef} :
    store.contentsEqual equal (.array ref) (.array ref') = true ↔
      List.Forall₂ (fun value value' => equal value value' = true)
        (store.array ref).toList (store.array ref').toList := by
  simp only [contentsEqual, Bool.and_eq_true, beq_iff_eq, allEqual_iff, and_iff_right_iff_imp]
  intro items
  exact items.length_eq

theorem recordsEqual_iff {equal : Value → Value → Bool} {ref ref' : RecordRef} :
    store.contentsEqual equal (.record ref) (.record ref') = true ↔
      (store.record ref).typeName = (store.record ref').typeName ∧
        List.Forall₂
          (fun field field' => (field.1 == field'.1) = true ∧ equal field.2 field'.2 = true)
          (store.record ref).fields.pairs (store.record ref').fields.pairs := by
  simp only [contentsEqual, Bool.and_eq_true, beq_iff_eq, fieldsEqual_iff]
  constructor
  · rintro ⟨⟨names, _⟩, fields⟩
    exact ⟨names, fields⟩
  · rintro ⟨names, fields⟩
    exact ⟨⟨names, fields.length_eq⟩, fields⟩

variable {values : Value → Prop} {met : Meetings} {fuel : Nat}

theorem Heap.alike_self (heap : store.Heap values) (known : values left)
    (same : ∀ value, values value → related value value) : store.Alike related left left := by
  cases left with
  | pair mark head tail => exact .pair (same _ (heap.head known)) (same _ (heap.tail known))
  | array ref =>
      exact .array (List.forall₂_same.mpr fun item member => same _ (heap.item known member))
  | record ref =>
      refine .record rfl (List.forall₂_same.mpr fun field member => ?_)
      exact ⟨BEq.refl _, same _ (heap.field known member)⟩
  | float x =>
      have number := heap.number known
      exact .float (Binary64.equal_iff.mpr ⟨number, number, rfl⟩)
  | symbol s => exact .symbol (by simp [Symbol.same])
  | _ => constructor

theorem Heap.same_bisimulation (heap : store.Heap values) :
    store.Bisimulation fun left right => left = right ∧ values left := by
  rintro left _ ⟨rfl, known⟩
  exact heap.alike_self known fun value known => ⟨rfl, known⟩

theorem alike_of_equalWith {inside : Container → Container → Bool} (heap : store.Heap values)
    (leftKnown : values left) (rightKnown : values right)
    (same : ∀ value, values value → related value value)
    (part : ∀ value value', values value → values value' →
      equalWith inside value value' = true → related value value')
    (arrays : ∀ ref ref', values (.array ref) → values (.array ref') →
      inside (.array ref) (.array ref') = true → store.Alike related (.array ref) (.array ref'))
    (records : ∀ ref ref', values (.record ref) → values (.record ref') →
      inside (.record ref) (.record ref') = true → store.Alike related (.record ref) (.record ref'))
    (equal : equalWith inside left right = true) : store.Alike related left right := by
  cases left with
  | pair mark head tail =>
      cases right with
      | pair mark' head' tail' =>
          simp only [equalWith, Bool.or_eq_true, Bool.and_eq_true, beq_iff_eq] at equal
          rcases equal with rfl | ⟨heads, tails⟩
          · obtain ⟨rfl, rfl⟩ := heap.marked leftKnown rightKnown
            exact .pair (same _ (heap.head leftKnown)) (same _ (heap.tail leftKnown))
          · exact .pair (part _ _ (heap.head leftKnown) (heap.head rightKnown) heads)
              (part _ _ (heap.tail leftKnown) (heap.tail rightKnown) tails)
      | _ => cases equal
  | array ref =>
      cases right with
      | array ref' => exact arrays ref ref' leftKnown rightKnown equal
      | _ => cases equal
  | record ref =>
      cases right with
      | record ref' => exact records ref ref' leftKnown rightKnown equal
      | _ => cases equal
  | float x =>
      cases right with
      | float y => exact .float equal
      | _ => cases equal
  | symbol s =>
      cases right with
      | symbol s' => exact .symbol equal
      | _ => cases equal
  | nil =>
      cases right with
      | nil => exact .nil
      | _ => cases equal
  | endMark =>
      cases right with
      | endMark => exact .endMark
      | _ => cases equal
  | _ =>
      cases right <;> first | cases equal | skip
      cases eq_of_beq equal
      constructor

theorem Alike.equalWith {inside : Container → Container → Bool}
    (alike : store.Alike related left right)
    (part : ∀ value value', related value value' → sizeOf value < sizeOf left →
      equalWith inside value value' = true)
    (arrays : ∀ ref ref', left = .array ref → right = .array ref' →
      inside (.array ref) (.array ref') = true)
    (records : ∀ ref ref', left = .record ref → right = .record ref' →
      inside (.record ref) (.record ref') = true) :
    Store.equalWith inside left right = true := by
  cases alike with
  | pair heads tails =>
      simp only [Store.equalWith, Bool.or_eq_true, Bool.and_eq_true]
      exact .inr ⟨part _ _ heads (by simp only [Value.pair.sizeOf_spec]; omega),
        part _ _ tails (by simp only [Value.pair.sizeOf_spec]; omega)⟩
  | array _ => exact arrays _ _ rfl rfl
  | record _ _ => exact records _ _ rfl rfl
  | float same => exact same
  | symbol same => exact same
  | nil => rfl
  | endMark => rfl
  | _ => exact beq_self_eq_true _

structure Supposed (related : Value → Value → Prop) (met : Meetings) : Prop where
  array {ref ref'} : (.array ref, .array ref') ∈ met → related (.array ref) (.array ref')
  record {ref ref'} : (.record ref, .record ref') ∈ met → related (.record ref) (.record ref')

theorem Supposed.consArray (supposed : Supposed related met) {ref ref' : ArrayRef}
    (holds : related (.array ref) (.array ref')) :
    Supposed related ((.array ref, .array ref') :: met) := by
  refine ⟨fun member => ?_, fun member => ?_⟩
  · rcases List.mem_cons.mp member with same | member
    · cases same
      exact holds
    · exact supposed.array member
  · exact supposed.record (List.mem_of_ne_of_mem (by simp) member)

theorem Supposed.consRecord (supposed : Supposed related met) {ref ref' : RecordRef}
    (holds : related (.record ref) (.record ref')) :
    Supposed related ((.record ref, .record ref') :: met) := by
  refine ⟨fun member => ?_, fun member => ?_⟩
  · exact supposed.array (List.mem_of_ne_of_mem (by simp) member)
  · rcases List.mem_cons.mp member with same | member
    · cases same
      exact holds
    · exact supposed.record member

/-- Values that nothing tells apart within so many steps down. -/
def Near (store : Store) : Nat → Value → Value → Prop
  | 0, _, _ => True
  | steps + 1, left, right => store.Alike (store.Near steps) left right

theorem Near.weaken {steps : Nat} (near : store.Near (steps + 1) left right) :
    store.Near steps left right := by
  induction steps generalizing left right with
  | zero => trivial
  | succ steps ih => exact Alike.mono near fun _ _ near => ih near

theorem Bisimulation.near (bisimulation : store.Bisimulation related) (holds : related left right)
    (steps : Nat) : store.Near steps left right := by
  induction steps generalizing left right with
  | zero => trivial
  | succ steps ih => exact (bisimulation left right holds).mono fun _ _ holds => ih holds

theorem Heap.near_self (heap : store.Heap values) (known : values left) (steps : Nat) :
    store.Near steps left left :=
  heap.same_bisimulation.near ⟨rfl, known⟩ steps

/-- A comparison that holds finds no difference at any depth, if there is none between the
containers that it takes as equal. -/
theorem Heap.near_of_equalAt (heap : store.Heap values) {steps : Nat} (leftKnown : values left)
    (rightKnown : values right) (supposed : Supposed (store.Near steps) met)
    (equal : store.equalAt fuel met left right = true) : store.Near steps left right := by
  induction steps generalizing fuel met left right with
  | zero => trivial
  | succ steps ih =>
      have weaker : Supposed (store.Near steps) met :=
        ⟨fun member => (supposed.array member).weaken, fun member => (supposed.record member).weaken⟩
      cases fuel with
      | zero => cases equal
      | succ fuel =>
          refine alike_of_equalWith heap leftKnown rightKnown
            (fun value known => heap.near_self known steps)
            (fun value value' known known' (equal : store.equalAt (fuel + 1) met value value' = true) =>
              ih known known' weaker equal)
            ?_ ?_ equal
          · intro ref ref' known known' equal
            have compared : store.equalAt (fuel + 1) met (.array ref) (.array ref') = true := equal
            have near := ih known known' weaker compared
            -- What is inside is compared with this pair taken as equal, so one step less is known of it.
            have supposed' := weaker.consArray near
            simp only [Bool.or_eq_true, beq_iff_eq, List.contains_iff_mem] at equal
            rcases equal with (same | member) | contents
            · cases same
              exact heap.alike_self known fun value known => heap.near_self known steps
            · exact supposed.array member
            · have items := arraysEqual_iff.mp contents
              refine .array (List.forall₂_iff_zip.mpr ⟨items.length_eq, fun member => ?_⟩)
              obtain ⟨inLeft, inRight⟩ := List.of_mem_zip member
              exact ih (heap.item known inLeft) (heap.item known' inRight) supposed'
                (List.forall₂_zip items member)
          · intro ref ref' known known' equal
            have compared : store.equalAt (fuel + 1) met (.record ref) (.record ref') = true := equal
            have near := ih known known' weaker compared
            have supposed' := weaker.consRecord near
            simp only [Bool.or_eq_true, beq_iff_eq, List.contains_iff_mem] at equal
            rcases equal with (same | member) | contents
            · cases same
              exact heap.alike_self known fun value known => heap.near_self known steps
            · exact supposed.record member
            · obtain ⟨names, fields⟩ := recordsEqual_iff.mp contents
              refine .record names (List.forall₂_iff_zip.mpr ⟨fields.length_eq, fun member => ?_⟩)
              obtain ⟨inLeft, inRight⟩ := List.of_mem_zip member
              obtain ⟨keys, equal⟩ := List.forall₂_zip fields member
              exact ⟨keys, ih (heap.field known inLeft) (heap.field known' inRight) supposed' equal⟩

theorem alike_forall {family : Nat → Value → Value → Prop}
    (alike : ∀ n, store.Alike (family n) left right) :
    store.Alike (fun value value' => ∀ n, family n value value') left right := by
  cases alike 0 with
  | pair _ _ =>
      refine .pair (fun n => ?_) (fun n => ?_)
      · cases alike n with
        | pair heads _ => exact heads
      · cases alike n with
        | pair _ tails => exact tails
  | array items =>
      refine .array (List.forall₂_iff_zip.mpr ⟨items.length_eq, fun member n => ?_⟩)
      cases alike n with
      | array items => exact List.forall₂_zip items member
  | record names fields =>
      refine .record names (List.forall₂_iff_zip.mpr ⟨fields.length_eq, fun member => ?_⟩)
      refine ⟨(List.forall₂_zip fields member).1, fun n => ?_⟩
      cases alike n with
      | record _ fields => exact (List.forall₂_zip fields member).2
  | float same => exact .float same
  | symbol same => exact .symbol same
  | _ => constructor

theorem near_bisimulation (store : Store) :
    store.Bisimulation fun left right => ∀ steps, store.Near steps left right :=
  fun _ _ near => alike_forall fun steps => near (steps + 1)

theorem Bisimulation.equalAt (bisimulation : store.Bisimulation related)
    (enough : store.unmet met < fuel) (holds : related left right) :
    store.equalAt fuel met left right = true := by
  induction fuel generalizing met left right with
  | zero => exact absurd enough (Nat.not_lt_zero _)
  | succ fuel ih =>
      induction size : sizeOf left using Nat.strongRecOn generalizing left right with
      | _ _ smaller =>
          have alike := bisimulation left right holds
          refine alike.equalWith ?_ ?_ ?_
          · intro value value' holds less
            exact smaller _ (size ▸ less) holds rfl
          · rintro ref ref' rfl rfl
            by_cases met' : (.array ref, .array ref') ∈ met
            · simp [met']
            · cases alike with
              | array items =>
                  refine Bool.or_eq_true_iff.mpr (.inr (arraysEqual_iff.mpr ?_))
                  refine List.forall₂_iff_zip.mpr ⟨items.length_eq, fun member => ?_⟩
                  obtain ⟨inLeft, inRight⟩ := List.of_mem_zip member
                  have fewer := unmet_cons_lt (mem_containers_array inLeft)
                    (mem_containers_array inRight) met'
                  exact ih (Nat.lt_of_lt_of_le fewer (Nat.le_of_lt_succ enough))
                    (List.forall₂_zip items member)
          · rintro ref ref' rfl rfl
            by_cases met' : (.record ref, .record ref') ∈ met
            · simp [met']
            · cases alike with
              | record names fields =>
                  refine Bool.or_eq_true_iff.mpr (.inr (recordsEqual_iff.mpr ⟨names, ?_⟩))
                  refine List.forall₂_iff_zip.mpr ⟨fields.length_eq, fun member => ?_⟩
                  obtain ⟨keys, holds⟩ := List.forall₂_zip fields member
                  obtain ⟨inLeft, inRight⟩ := List.of_mem_zip member
                  have fewer := unmet_cons_lt (mem_containers_record inLeft)
                    (mem_containers_record inRight) met'
                  exact ⟨keys, ih (Nat.lt_of_lt_of_le fewer (Nat.le_of_lt_succ enough)) holds⟩

theorem Heap.equal_iff (heap : store.Heap values) (leftKnown : values left)
    (rightKnown : values right) : store.equal left right = true ↔ store.Bisimilar left right := by
  constructor
  · intro equal
    refine ⟨_, store.near_bisimulation, fun steps => ?_⟩
    exact heap.near_of_equalAt leftKnown rightKnown ⟨by simp, by simp⟩ equal
  · rintro ⟨related, bisimulation, holds⟩
    exact bisimulation.equalAt (by rw [unmet_nil]; exact Nat.lt_succ_self _) holds

theorem Bisimilar.symm (bisimilar : store.Bisimilar left right) : store.Bisimilar right left := by
  obtain ⟨related, bisimulation, holds⟩ := bisimilar
  exact ⟨flip related, fun _ _ holds => (bisimulation _ _ holds).symm, holds⟩

theorem Bisimilar.trans (first : store.Bisimilar left middle) (second : store.Bisimilar middle right) :
    store.Bisimilar left right := by
  obtain ⟨related, bisimulation, holds⟩ := first
  obtain ⟨related', bisimulation', holds'⟩ := second
  refine ⟨Relation.Comp related related', ?_, middle, holds, holds'⟩
  rintro _ _ ⟨value, holds, holds'⟩
  exact (bisimulation _ _ holds).comp (bisimulation' _ _ holds')

/-- Comparisons end, with any bound that is large enough, and on a heap they tell apart what no
bisimulation relates; so equality is an equivalence there. -/
theorem equal_iff_bisimilar (heap : store.Heap values) :
    (WellFounded store.Asks ∧ ∃ answer, store.Answers answer ∧
      (∀ other, store.Answers other → other = answer) ∧ answer [] = store.equal) ∧
    (∀ left right, values left → values right →
      (store.equal left right = true ↔ store.Bisimilar left right)) ∧
    Equivalence fun left right : { value // values value } => store.equal left right = true := by
  refine ⟨⟨asks_wellFounded store, equal_unbounded store⟩, fun left right => heap.equal_iff, ?_⟩
  constructor
  · rintro ⟨value, known⟩
    exact (heap.equal_iff known known).mpr ⟨_, heap.same_bisimulation, rfl, known⟩
  · rintro ⟨value, known⟩ ⟨value', known'⟩ equal
    exact (heap.equal_iff known' known).mpr ((heap.equal_iff known known').mp equal).symm
  · rintro ⟨value, known⟩ ⟨value', known'⟩ ⟨value'', known''⟩ equal equal'
    exact (heap.equal_iff known known'').mpr
      (((heap.equal_iff known known').mp equal).trans ((heap.equal_iff known' known'').mp equal'))

def rings : Store :=
  { empty with arrays := #[#[.array 0], #[.array 2], #[.array 1], #[.array 3, .int 2]] }

/-- Rings of different lengths are equal, and bisimilar; the number makes a difference. -/
theorem rings_equal_bisimilar :
    rings.Heap (fun value => value = .int 2 ∨ ∃ ref, value = .array ref ∧ ref < 4) ∧
    rings.Bisimilar (.array 0) (.array 1) ∧ ¬ rings.Bisimilar (.array 0) (.array 3) := by
  have heap : rings.Heap fun value => value = .int 2 ∨ ∃ ref, value = .array ref ∧ ref < 4 := by
    refine ⟨by simp, by simp, ?_, by simp, by simp, by simp⟩
    intro ref item known member
    obtain ⟨_, ⟨⟩, inside⟩ := known.resolve_left (by simp)
    match ref, inside with
    | 0, _ | 1, _ | 2, _ | 3, _ =>
        simp only [rings, Store.array, Array.mem_toList_iff] at member
        rcases Array.mem_toList_iff.mpr member with _ | ⟨_, _ | ⟨_, ⟨⟩⟩⟩ <;> simp
  have known (ref : ArrayRef) (inside : ref < 4) :
      Value.array ref = .int 2 ∨ ∃ ref', Value.array ref = .array ref' ∧ ref' < 4 :=
    .inr ⟨ref, rfl, inside⟩
  have decided := (equal_iff_bisimilar heap).2.1
  refine ⟨heap, ?_, ?_⟩
  · exact (decided _ _ (known 0 (by decide)) (known 1 (by decide))).mp (by decide)
  · intro bisimilar
    have equal := (decided _ _ (known 0 (by decide)) (known 3 (by decide))).mpr bisimilar
    exact absurd equal (by decide)

end Store

end StackLisp
