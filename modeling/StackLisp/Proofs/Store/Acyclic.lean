import Mathlib.Data.Fintype.EquivFin
import Mathlib.Logic.Relation
import StackLisp.Proofs.Form.Infix

/-!
Values without cycles. An array may come to stand inside of itself, since its items can be replaced. Where
none does, there is a bound on how deep a value goes, and the bound stays the same as long as the arrays
inside of the value are left alone. A block of infix operators leaves room for the lists that its items
are rearranged to.
-/

namespace StackLisp

def Value.arrays : Value → List ArrayRef
  | .pair _ head tail => head.arrays ++ tail.arrays
  | .array ref => [ref]
  | _ => []

namespace Store

def Within (store : Store) (inner outer : ArrayRef) : Prop :=
  ∃ item ∈ (store.array outer).toList, inner ∈ item.arrays

inductive Reaches (store : Store) (value : Value) : ArrayRef → Prop
  | direct {ref : ArrayRef} : ref ∈ value.arrays → Reaches store value ref
  | deeper {inner outer : ArrayRef} :
    Reaches store value outer → store.Within inner outer → Reaches store value inner

/-- A value in which no array contains itself, and all of whose arrays are among those that are kept. -/
structure Acyclic (store : Store) (kept : ArrayRef → Prop) (value : Value) : Prop where
  kept : ∀ ref, store.Reaches value ref → kept ref
  made : ∀ ref, store.Reaches value ref → ref < store.arrays.size
  apart : ∀ ref, store.Reaches value ref → ¬ Relation.TransGen store.Within ref ref

def Rests (kept : ArrayRef → Prop) (before after : Store) : Prop :=
  ∀ ref, kept ref → ref < before.arrays.size →
    ref < after.arrays.size ∧ after.array ref = before.array ref

inductive Fits (store : Store) (kept : ArrayRef → Prop) : Value → Nat → Prop
  | pair {mark : Nat} {head tail : Value} {depth bound : Nat} : Fits store kept head depth →
    Fits store kept tail depth → depth < bound → Fits store kept (.pair mark head tail) bound
  | array {ref : ArrayRef} {depth bound : Nat} : kept ref → ref < store.arrays.size →
    (∀ item ∈ (store.array ref).toList, Fits store kept item depth) →
    depth + 3 * (store.array ref).size < bound → Fits store kept (.array ref) bound
  | plain {value : Value} {bound : Nat} : value.arrays = [] →
    (∀ mark head tail, value ≠ .pair mark head tail) →
    Fits store kept value bound

section Depth

variable {store : Store} {kept : ArrayRef → Prop}

theorem Rests.refl (store : Store) : Rests kept store store := fun _ _ made => ⟨made, rfl⟩

theorem Rests.trans {first second third : Store} (front : Rests kept first second)
    (back : Rests kept second third) : Rests kept first third := by
  intro ref isKept made
  obtain ⟨stillMade, same⟩ := front ref isKept made
  obtain ⟨atLast, same'⟩ := back ref isKept stillMade
  exact ⟨atLast, same'.trans same⟩

theorem rests_of_arrays {before after : Store} (same : after.arrays = before.arrays) :
    Rests kept before after := by
  intro ref _ made
  rw [same, array, array, same]
  exact ⟨made, rfl⟩

theorem Fits.mono {value : Value} {depth bound : Nat} (fits : store.Fits kept value depth)
    (le : depth ≤ bound) : store.Fits kept value bound := by
  cases fits with
  | pair head tail below => exact .pair head tail (Nat.lt_of_lt_of_le below le)
  | array isKept made items below => exact .array isKept made items (Nat.lt_of_lt_of_le below le)
  | plain none noPair => exact .plain none noPair

theorem Fits.rests {later : Store} (rests : Rests kept store later) {value : Value} {bound : Nat}
    (fits : store.Fits kept value bound) : later.Fits kept value bound := by
  induction fits with
  | pair _ _ below ihHead ihTail => exact .pair ihHead ihTail below
  | array isKept made _ below ih =>
      obtain ⟨stillMade, same⟩ := rests _ isKept made
      rw [← same] at ih below
      exact .array isKept stillMade ih below
  | plain none noPair => exact .plain none noPair

/-! What stands inside. -/

theorem Fits.spine {value : Value} {bound : Nat} (fits : store.Fits kept value bound) :
    ∀ item ∈ value.spine.1, store.Fits kept item (bound - 1) := by
  induction value generalizing bound with
  | pair mark head tail _ ihTail =>
      cases fits with
      | pair headFits tailFits below =>
          intro item member
          rcases List.mem_cons.mp member with rfl | later
          · exact headFits.mono (by omega)
          · exact (ihTail tailFits item later).mono (by omega)
      | plain _ noPair => exact absurd rfl (noPair _ _ _)
  | _ => exact fun _ member => by cases member

theorem Fits.items {value : Value} {bound : Nat} (fits : store.Fits kept value bound)
    {items : List Value} (isList : value.items? = some items) :
    ∀ item ∈ items, store.Fits kept item (bound - 1) := by
  have inside := fits.spine
  unfold Value.items? at isList
  split at isList
  next given spine =>
    cases isList
    rw [spine] at inside
    exact inside
  next => cases isList

theorem Fits.array_inv {ref : ArrayRef} {bound : Nat} (fits : store.Fits kept (.array ref) bound) :
    kept ref ∧ ref < store.arrays.size ∧
      ∃ depth, depth + 3 * (store.array ref).size < bound ∧
        ∀ item ∈ (store.array ref).toList, store.Fits kept item depth := by
  cases fits with
  | array isKept made items below => exact ⟨isKept, made, _, below, items⟩
  | plain none => cases none

/-! Infix blocks. -/

theorem fits_newList {values : List Value} {depth : Nat}
    (fits : ∀ value ∈ values, store.Fits kept value depth) :
    (store.newList values).2.Fits kept (store.newList values).1 (depth + values.length) := by
  have rests : Rests kept store (store.newList values).2 := rests_of_arrays rfl
  have paired (mark : Nat) : store.Fits kept (pairUp mark values .nil) (depth + values.length) := by
    induction values generalizing mark with
    | nil => exact .plain rfl (fun _ _ _ pair => by cases pair)
    | cons first later ih =>
        have tail := ih (fun value member => fits value (List.mem_cons_of_mem _ member))
          (rests_of_arrays rfl) (mark + 1)
        exact .pair ((fits first List.mem_cons_self).mono (Nat.le_add_right _ _)) tail (by simp)
  exact (paired store.nextMark).rests rests

theorem toValue_arrays (tree : InfixTree) (store : Store) :
    (tree.toValue store).2.arrays = store.arrays := by
  induction tree generalizing store with
  | operand value => rfl
  | apply operator left right ihLeft ihRight =>
      rw [InfixTree.toValue]
      exact (ihRight _).trans (ihLeft _)

theorem fits_toValue (tree : InfixTree) (store : Store) {depth : Nat}
    (fits : ∀ item ∈ tree.items, store.Fits kept item depth) :
    (tree.toValue store).2.Fits kept (tree.toValue store).1 (depth + 3 * tree.items.length) := by
  induction tree generalizing store with
  | operand value => exact (fits value (List.mem_singleton.mpr rfl)).mono (Nat.le_add_right _ _)
  | apply operator left right ihLeft ihRight =>
      simp only [InfixTree.items, List.mem_append, List.mem_cons] at fits
      have first := ihLeft store fun item member => fits item (.inl member)
      have restsLeft : Rests kept store (left.toValue store).2 := rests_of_arrays (toValue_arrays _ _)
      have second := ihRight (left.toValue store).2 fun item member =>
        (fits item (.inr (.inr member))).rests restsLeft
      have restsRight : Rests kept (left.toValue store).2 (right.toValue (left.toValue store).2).2 :=
        rests_of_arrays (toValue_arrays _ _)
      have head := (fits operator (.inr (.inl rfl))).rests (restsLeft.trans restsRight)
      have all : ∀ value ∈ [operator, (left.toValue store).1, (right.toValue (left.toValue store).2).1],
          (right.toValue (left.toValue store).2).2.Fits kept value
            (depth + 3 * (left.items.length + right.items.length)) := by
        simp only [List.forall_mem_cons, List.not_mem_nil, false_imp_iff, implies_true, and_true]
        exact ⟨head.mono (by omega), (first.rests restsRight).mono (by omega), second.mono (by omega)⟩
      have whole := fits_newList all
      refine whole.mono ?_
      simp only [InfixTree.items, List.length_append, List.length_cons, List.length_nil]
      omega

/-! Values without cycles have a depth. -/

theorem exists_fits_all {values : List Value}
    (each : ∀ value ∈ values, ∃ depth, store.Fits kept value depth) :
    ∃ depth, ∀ value ∈ values, store.Fits kept value depth := by
  induction values with
  | nil => exact ⟨0, fun _ member => by cases member⟩
  | cons first later ih =>
      obtain ⟨one, firstFits⟩ := each first List.mem_cons_self
      obtain ⟨other, laterFit⟩ := ih fun value member => each value (List.mem_cons_of_mem _ member)
      refine ⟨max one other, fun value member => ?_⟩
      rcases List.mem_cons.mp member with rfl | member
      · exact firstFits.mono (Nat.le_max_left _ _)
      · exact (laterFit value member).mono (Nat.le_max_right _ _)

theorem exists_fits_of_arrays {value : Value}
    (each : ∀ ref ∈ value.arrays, ∃ depth, store.Fits kept (.array ref) depth) :
    ∃ depth, store.Fits kept value depth := by
  induction value with
  | pair mark head tail ihHead ihTail =>
      simp only [Value.arrays, List.mem_append] at each
      obtain ⟨one, headFits⟩ := ihHead fun ref member => each ref (.inl member)
      obtain ⟨other, tailFits⟩ := ihTail fun ref member => each ref (.inr member)
      exact ⟨max one other + 1, .pair (headFits.mono (Nat.le_max_left _ _))
        (tailFits.mono (Nat.le_max_right _ _)) (Nat.lt_succ_self _)⟩
  | array ref => exact each ref (List.mem_singleton.mpr rfl)
  | _ => exact ⟨0, .plain rfl (fun _ _ _ pair => by cases pair)⟩

theorem acyclic_of_flat {value : Value} (flat : ∀ ref ∈ value.arrays, kept ref ∧
      ref < store.arrays.size ∧ ∀ item ∈ (store.array ref).toList, item.arrays = []) :
    store.Acyclic kept value := by
  have topmost (ref : ArrayRef) (reached : store.Reaches value ref) : ref ∈ value.arrays := by
    induction reached with
    | direct member => exact member
    | deeper _ within ih =>
        obtain ⟨item, member, inside⟩ := within
        rw [(flat _ ih).2.2 item member] at inside
        cases inside
  refine ⟨fun ref reached => (flat ref (topmost ref reached)).1,
    fun ref reached => (flat ref (topmost ref reached)).2.1, fun ref reached cycle => ?_⟩
  obtain ⟨inner, _, item, member, inside⟩ := Relation.TransGen.tail'_iff.mp cycle
  rw [(flat ref (topmost ref reached)).2.2 item member] at inside
  cases inside

theorem acyclic_of_arrays {value : Value} (none : value.arrays = []) : store.Acyclic kept value := by
  refine acyclic_of_flat fun ref member => ?_
  rw [none] at member
  cases member

/-- The arrays inside of a value are finitely many, so without a cycle there is no endless way down. -/
theorem Acyclic.exists_fits {value : Value} (acyclic : store.Acyclic kept value) :
    ∃ depth, store.Fits kept value depth := by
  let inside := {ref : ArrayRef // store.Reaches value ref}
  have : Finite inside := by
    refine Finite.of_injective (β := Fin store.arrays.size)
      (fun ref => ⟨ref.1, acyclic.made ref.1 ref.2⟩) ?_
    intro ref other same
    exact Subtype.ext (congrArg Fin.val same)
  let below (inner outer : inside) : Prop := Relation.TransGen store.Within inner.1 outer.1
  have : IsTrans inside below := ⟨fun _ _ _ => Relation.TransGen.trans⟩
  have : Std.Irrefl below := ⟨fun ref => acyclic.apart ref.1 ref.2⟩
  have wellFounded : WellFounded below := Finite.wellFounded_of_trans_of_irrefl below
  have each (ref : inside) : ∃ depth, store.Fits kept (.array ref.1) depth := by
    induction ref using wellFounded.induction with
    | h ref ih =>
        have parts : ∀ item ∈ (store.array ref.1).toList, ∃ depth, store.Fits kept item depth := by
          refine fun item member => exists_fits_of_arrays fun inner isInside => ?_
          have within : store.Within inner ref.1 := ⟨item, member, isInside⟩
          exact ih ⟨inner, .deeper ref.2 within⟩ (.single within)
        obtain ⟨depth, items⟩ := exists_fits_all parts
        exact ⟨depth + 3 * (store.array ref.1).size + 1,
          .array (acyclic.kept ref.1 ref.2) (acyclic.made ref.1 ref.2) items (Nat.lt_succ_self _)⟩
  exact exists_fits_of_arrays fun ref member => each ⟨ref, .direct member⟩

end Depth

end Store

end StackLisp
