import Mathlib.Tactic.Ring
import Mathlib.Tactic.Linarith
import StackLisp.Text.Numeral

/-!
Numerals: the digits of a number denote it, and appending digits multiplies and adds.
-/

namespace StackLisp

theorem digitValue?_digitChar {digit : Nat} (bound : digit < 16) :
    digitValue? (digitChar digit) = some digit := by
  have all : ∀ digit < 16, digitValue? (digitChar digit) = some digit := by decide
  exact all digit bound

theorem isDigitOf_digitChar {base digit : Nat} (small : base ≤ 16) (bound : digit < base) :
    isDigitOf base (digitChar digit) = true := by
  simp [isDigitOf, digitValue?_digitChar (Nat.lt_of_lt_of_le bound small), bound]

/-! The value of a run of digits. -/

theorem numeralValue_from (base start : Nat) (text : List Char) :
    text.foldl (fun value c => value * base + (digitValue? c).getD 0) start =
      start * base ^ text.length + numeralValue base text := by
  induction text generalizing start with
  | nil => simp [numeralValue]
  | cons c rest ih =>
      simp only [List.foldl_cons, numeralValue, List.length_cons]
      rw [ih, ih (0 * base + _), pow_succ]
      ring

theorem numeralValue_append (base : Nat) (left right : List Char) :
    numeralValue base (left ++ right) =
      numeralValue base left * base ^ right.length + numeralValue base right := by
  rw [numeralValue, List.foldl_append, numeralValue_from]
  rfl

theorem numeralValue_replicate_zero (base count : Nat) :
    numeralValue base (List.replicate count '0') = 0 := by
  induction count with
  | zero => rfl
  | succ count ih =>
      rw [List.replicate_succ, ← List.singleton_append, numeralValue_append, ih]
      simp [numeralValue, digitValue?]

/-! The digits of a number. -/

theorem numeralFrom_append (base fuel value : Nat) (written : List Char) :
    numeralFrom base fuel value written = numeralFrom base fuel value [] ++ written := by
  induction fuel generalizing value written with
  | zero => rfl
  | succ fuel ih =>
      simp only [numeralFrom]
      split
      · rfl
      · rw [ih _ (_ :: written), ih _ [_]]
        simp

theorem numeralFrom_fuel {base fuel more value : Nat} (large : 2 ≤ base)
    (enough : value < fuel) (alsoEnough : value < more) :
    numeralFrom base fuel value [] = numeralFrom base more value [] := by
  induction fuel generalizing more value with
  | zero => omega
  | succ fuel ih =>
      cases more with
      | zero => omega
      | succ more =>
          simp only [numeralFrom]
          split
          · rfl
          next continues =>
            have smaller : value / base < value := by
              apply Nat.div_lt_self _ large
              by_contra zero
              have : value = 0 := by omega
              subst this
              simp at continues
            rw [numeralFrom_append, numeralFrom_append base more,
              ih (by omega) (show value / base < more by omega)]

theorem numeral_small {base value : Nat} (small : value < base) :
    numeral base value = [digitChar value] := by
  simp [numeral, numeralFrom, Nat.div_eq_of_lt small, Nat.mod_eq_of_lt small]

theorem numeral_large {base value : Nat} (large : 2 ≤ base) (more : base ≤ value) :
    numeral base value = numeral base (value / base) ++ [digitChar (value % base)] := by
  have positive : value / base ≠ 0 := by
    have := Nat.div_pos more (by omega)
    omega
  have smaller : value / base < value := Nat.div_lt_self (by omega) large
  rw [numeral, numeralFrom]
  simp only [positive, ↓reduceIte]
  rw [numeralFrom_append, numeral]
  exact congrArg (· ++ _) (numeralFrom_fuel large smaller (by omega))

theorem digits_induction {base : Nat} (large : 2 ≤ base) {motive : Nat → Prop}
    (small : ∀ value < base, motive value)
    (more : ∀ value, base ≤ value → motive (value / base) → motive value) (value : Nat) :
    motive value := by
  induction value using Nat.strongRecOn with
  | ind value ih =>
      by_cases below : value < base
      · exact small value below
      · exact more value (by omega) (ih _ (Nat.div_lt_self (by omega) large))

variable (base : Nat)

theorem numeralValue_numeral (large : 2 ≤ base) (small : base ≤ 16) (value : Nat) :
    numeralValue base (numeral base value) = value := by
  have single (digit : Nat) (below : digit < base) :
      numeralValue base [digitChar digit] = digit := by
    simp [numeralValue, digitValue?_digitChar (Nat.lt_of_lt_of_le below small)]
  induction value using digits_induction large with
  | small value below => rw [numeral_small below, single value below]
  | more value atLeast ih =>
      have digit : value % base < base := Nat.mod_lt _ (by omega)
      rw [numeral_large large atLeast, numeralValue_append, ih, single _ digit]
      simpa using Nat.div_add_mod' value base

theorem numeral_all_digits (large : 2 ≤ base) (small : base ≤ 16) (value : Nat) :
    (numeral base value).all (isDigitOf base) = true := by
  induction value using digits_induction large with
  | small value below => simp [numeral_small below, isDigitOf_digitChar small below]
  | more value atLeast ih =>
      have digit : value % base < base := Nat.mod_lt _ (by omega)
      simp [numeral_large large atLeast, ih, isDigitOf_digitChar small digit]

theorem numeral_ne_nil (large : 2 ≤ base) (value : Nat) : numeral base value ≠ [] := by
  by_cases below : value < base
  · simp [numeral_small below]
  · simp [numeral_large large (Nat.le_of_not_lt below)]

theorem isNumeral_numeral (large : 2 ≤ base) (small : base ≤ 16) (value : Nat) :
    isNumeral base (numeral base value) = true := by
  simp [isNumeral, numeral_ne_nil base large, numeral_all_digits base large small]

theorem numeral_length_bounds (large : 2 ≤ base) {value : Nat} (positive : 0 < value) :
    base ^ ((numeral base value).length - 1) ≤ value ∧
      value < base ^ (numeral base value).length := by
  induction value using digits_induction large with
  | small value below => simp [numeral_small below, below]; omega
  | more value atLeast ih =>
      obtain ⟨lower, upper⟩ := ih (Nat.div_pos atLeast (by omega))
      have nonempty : 0 < (numeral base (value / base)).length :=
        List.length_pos_iff.mpr (numeral_ne_nil base large _)
      rw [numeral_large large atLeast]
      simp only [List.length_append, List.length_singleton, Nat.add_sub_cancel]
      constructor
      · calc base ^ (numeral base (value / base)).length
            = base ^ ((numeral base (value / base)).length - 1) * base := by
              rw [← pow_succ, Nat.sub_add_cancel nonempty]
          _ ≤ value / base * base := Nat.mul_le_mul_right _ lower
          _ ≤ value := Nat.div_mul_le_self _ _
      · rw [pow_succ]
        exact (Nat.div_lt_iff_lt_mul (by omega)).mp upper

theorem numeral_mul_base (large : 2 ≤ base) {value : Nat} (positive : 0 < value) :
    numeral base (value * base) = numeral base value ++ ['0'] := by
  have atLeast : base ≤ value * base := Nat.le_mul_of_pos_left _ positive
  rw [numeral_large large atLeast, Nat.mul_div_cancel _ (by omega), Nat.mul_mod_left]
  rfl

theorem numeral_mul_pow (large : 2 ≤ base) {value : Nat} (positive : 0 < value) (count : Nat) :
    numeral base (value * base ^ count) = numeral base value ++ List.replicate count '0' := by
  induction count with
  | zero => simp
  | succ count ih =>
      have powPositive : 0 < base ^ count := Nat.pow_pos (by omega)
      rw [pow_succ, ← Nat.mul_assoc, numeral_mul_base base large (Nat.mul_pos positive powPositive),
        ih, List.append_assoc, List.replicate_succ']

end StackLisp
