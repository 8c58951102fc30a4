import Mathlib.Tactic.Ring
import Mathlib.Tactic.Linarith
import Mathlib.Tactic.NormNum
import StackLisp.Number.Binary64

/-!
Rounding of quotients to double-precision numbers. The nearest number depends on the quotient
alone, not on its terms, and a quotient that is a finite number is rounded to that number.
-/

namespace StackLisp.Binary64

structure IsScale (numerator denominator scale : Nat) : Prop where
  below : numerator * 2 ^ 1022 < denominator * 2 ^ (scale + 1)
  least : scale = 0 ∨ denominator * 2 ^ scale ≤ numerator * 2 ^ 1022

theorem IsScale.unique {numerator denominator left right : Nat}
    (first : IsScale numerator denominator left) (second : IsScale numerator denominator right) :
    left = right := by
  have ordered {low high : Nat} (lowScale : IsScale numerator denominator low)
      (highScale : IsScale numerator denominator high) : high ≤ low := by
    rcases highScale.least with zero | reached
    · omega
    · by_contra above
      have grows : denominator * 2 ^ (low + 1) ≤ denominator * 2 ^ high :=
        Nat.mul_le_mul_left _ (Nat.pow_le_pow_right (by decide) (by omega))
      have := lowScale.below
      omega
  exact Nat.le_antisymm (ordered second first) (ordered first second)

theorem isScale_scaleOfQuotient {numerator denominator : Nat} (positive : 0 < numerator)
    (divides : 0 < denominator) :
    IsScale numerator denominator (scaleOfQuotient numerator denominator) := by
  have numeratorUpper : numerator < 2 ^ (numerator.log2 + 1) := Nat.lt_log2_self
  have numeratorLower : 2 ^ numerator.log2 ≤ numerator := Nat.log2_self_le (by omega)
  have denominatorUpper : denominator < 2 ^ (denominator.log2 + 1) := Nat.lt_log2_self
  have denominatorLower : 2 ^ denominator.log2 ≤ denominator := Nat.log2_self_le (by omega)
  have scaledUpper : numerator * 2 ^ 1022 < 2 ^ (numerator.log2 + 1023) := by
    calc numerator * 2 ^ 1022 < 2 ^ (numerator.log2 + 1) * 2 ^ 1022 :=
          Nat.mul_lt_mul_of_pos_right numeratorUpper (by positivity)
      _ = 2 ^ (numerator.log2 + 1023) := by rw [← pow_add]
  have scaledLower : 2 ^ (numerator.log2 + 1022) ≤ numerator * 2 ^ 1022 := by
    rw [pow_add]
    exact Nat.mul_le_mul_right _ numeratorLower
  have wide {scale : Nat} (reaches : numerator.log2 + 1022 ≤ denominator.log2 + scale) :
      numerator * 2 ^ 1022 < denominator * 2 ^ (scale + 1) := by
    calc numerator * 2 ^ 1022 < 2 ^ (numerator.log2 + 1023) := scaledUpper
      _ ≤ 2 ^ (denominator.log2 + (scale + 1)) :=
          Nat.pow_le_pow_right (by decide) (by omega)
      _ = 2 ^ denominator.log2 * 2 ^ (scale + 1) := pow_add _ _ _
      _ ≤ denominator * 2 ^ (scale + 1) := Nat.mul_le_mul_right _ denominatorLower
  unfold scaleOfQuotient
  dsimp only
  split
  next small => exact ⟨wide (by omega), .inl rfl⟩
  next large =>
    split
    next tooHigh =>
      refine ⟨?_, .inr ?_⟩
      · rwa [Nat.sub_add_cancel (by omega)]
      · calc denominator * 2 ^ (numerator.log2 + 1022 - denominator.log2 - 1)
            ≤ 2 ^ (denominator.log2 + 1) * 2 ^ (numerator.log2 + 1022 - denominator.log2 - 1) :=
              Nat.mul_le_mul_right _ (Nat.le_of_lt denominatorUpper)
          _ = 2 ^ (numerator.log2 + 1022) := by rw [← pow_add]; congr 1; omega
          _ ≤ numerator * 2 ^ 1022 := scaledLower
    next reached => exact ⟨wide (by omega), .inr (by omega)⟩

theorem IsScale.mul_right {numerator denominator scale factor : Nat} (positive : 0 < factor)
    (isScale : IsScale numerator denominator scale) :
    IsScale (numerator * factor) (denominator * factor) scale := by
  refine ⟨?_, isScale.least.imp_right fun reached => ?_⟩
  · rw [Nat.mul_right_comm, Nat.mul_right_comm denominator]
    exact Nat.mul_lt_mul_of_pos_right isScale.below positive
  · rw [Nat.mul_right_comm, Nat.mul_right_comm numerator]
    exact Nat.mul_le_mul_right _ reached

theorem scaleOfQuotient_mul_right {numerator denominator factor : Nat}
    (positive : 0 < numerator) (divides : 0 < denominator) (scales : 0 < factor) :
    scaleOfQuotient (numerator * factor) (denominator * factor) =
      scaleOfQuotient numerator denominator :=
  (isScale_scaleOfQuotient (Nat.mul_pos positive scales) (Nat.mul_pos divides scales)).unique
    ((isScale_scaleOfQuotient positive divides).mul_right scales)

theorem roundHalfEven_mul_right {numerator denominator factor : Nat} (scales : 0 < factor) :
    roundHalfEven (numerator * factor) (denominator * factor) =
      roundHalfEven numerator denominator := by
  have quotient : numerator * factor / (denominator * factor) = numerator / denominator :=
    Nat.mul_div_mul_right _ _ scales
  have remainder : numerator * factor % (denominator * factor) =
      numerator % denominator * factor := Nat.mul_mod_mul_right _ _ _
  have larger : denominator * factor < 2 * (numerator % denominator * factor) ↔
      denominator < 2 * (numerator % denominator) := by
    rw [← Nat.mul_assoc]
    exact Nat.mul_lt_mul_right scales
  have half : denominator * factor = 2 * (numerator % denominator * factor) ↔
      denominator = 2 * (numerator % denominator) := by
    rw [← Nat.mul_assoc]
    exact Nat.mul_left_inj (by omega)
  simp only [roundHalfEven, quotient, remainder, larger, half]

theorem nearestMagnitude_mul_right {numerator denominator factor : Nat}
    (divides : 0 < denominator) (scales : 0 < factor) :
    nearestMagnitude (numerator * factor) (denominator * factor) =
      nearestMagnitude numerator denominator := by
  rcases Nat.eq_zero_or_pos numerator with rfl | positive
  · simp [nearestMagnitude]
  · have expanded : numerator * factor ≠ 0 := (Nat.mul_pos positive scales).ne'
    simp only [nearestMagnitude, expanded, positive.ne', ↓reduceIte]
    rw [scaleOfQuotient_mul_right positive divides scales, Nat.mul_right_comm numerator,
      Nat.mul_right_comm denominator, roundHalfEven_mul_right scales]

theorem nearestMagnitude_le (numerator denominator : Nat) :
    nearestMagnitude numerator denominator ≤ infiniteMagnitude := by
  unfold nearestMagnitude
  split
  · exact Nat.zero_le _
  · exact Nat.min_le_left _ _

/-! Numbers and their parts. -/

theorem magnitude_ofMagnitude {magnitude : Nat} (negative : Bool)
    (bound : magnitude ≤ infiniteMagnitude) :
    (ofMagnitude negative magnitude).magnitude = magnitude := by
  have : infiniteMagnitude = 9218868437227405312 := rfl
  cases negative <;> simp only [ofMagnitude, Binary64.magnitude, UInt64.toNat_ofNat',
    Bool.false_eq_true, ↓reduceIte] <;> omega

theorem ofMagnitude_magnitude (x : Binary64) : ofMagnitude x.negative x.magnitude = x := by
  obtain ⟨bits⟩ := x
  have bound := bits.toNat_lt
  simp only [ofMagnitude, negative, magnitude, mk.injEq]
  by_cases high : 9223372036854775808 ≤ bits.toNat
  · have whole : 9223372036854775808 + bits.toNat % 9223372036854775808 = bits.toNat := by omega
    simp [high, whole]
  · have whole : bits.toNat % 9223372036854775808 = bits.toNat := by omega
    simp [high, whole]

theorem roundHalfEven_mul_left {value denominator : Nat} (divides : 0 < denominator) :
    roundHalfEven (value * denominator) denominator = value := by
  simp [roundHalfEven, Nat.mul_div_cancel _ divides]
  omega

theorem nearestMagnitude_exact {magnitude : Nat} (positive : 0 < magnitude)
    (finite : magnitude < infiniteMagnitude) :
    nearestMagnitude (significandOf magnitude * 2 ^ scaleOf magnitude) (2 ^ 1074) =
      magnitude := by
  have significandPositive : 0 < significandOf magnitude := by
    unfold significandOf
    split <;> omega
  have unitsPositive : 0 < significandOf magnitude * 2 ^ scaleOf magnitude :=
    Nat.mul_pos significandPositive (by positivity)
  have significandUpper : significandOf magnitude < 2 ^ 53 := by
    unfold significandOf exponentField
    split <;> omega
  have isScale : IsScale (significandOf magnitude * 2 ^ scaleOf magnitude) (2 ^ 1074)
      (scaleOf magnitude) := by
    refine ⟨?_, ?_⟩
    · calc significandOf magnitude * 2 ^ scaleOf magnitude * 2 ^ 1022
          < 2 ^ 53 * 2 ^ scaleOf magnitude * 2 ^ 1022 :=
            Nat.mul_lt_mul_of_pos_right
              (Nat.mul_lt_mul_of_pos_right significandUpper (by positivity)) (by positivity)
        _ = 2 ^ 1074 * 2 ^ (scaleOf magnitude + 1) := by
            rw [← pow_add, ← pow_add, ← pow_add]
            congr 1
            omega
    · by_cases subnormal : exponentField magnitude = 0
      · exact .inl (by simp [scaleOf, subnormal])
      · refine .inr ?_
        have significandLower : 2 ^ 52 ≤ significandOf magnitude := by
          simp only [significandOf, subnormal, ↓reduceIte]
          omega
        calc 2 ^ 1074 * 2 ^ scaleOf magnitude = 2 ^ 52 * 2 ^ scaleOf magnitude * 2 ^ 1022 := by
              rw [← pow_add, ← pow_add, ← pow_add]
              congr 1
              omega
          _ ≤ significandOf magnitude * 2 ^ scaleOf magnitude * 2 ^ 1022 :=
            Nat.mul_le_mul_right _ (Nat.mul_le_mul_right _ significandLower)
  have scaleEq : scaleOfQuotient (significandOf magnitude * 2 ^ scaleOf magnitude) (2 ^ 1074) =
      scaleOf magnitude :=
    (isScale_scaleOfQuotient unitsPositive (by positivity)).unique isScale
  have rounded : roundHalfEven (significandOf magnitude * 2 ^ scaleOf magnitude * 2 ^ 1074)
      (2 ^ 1074 * 2 ^ scaleOf magnitude) = significandOf magnitude := by
    rw [Nat.mul_assoc, Nat.mul_comm (2 ^ scaleOf magnitude)]
    exact roundHalfEven_mul_left (by positivity)
  have parts : scaleOf magnitude * 4503599627370496 + significandOf magnitude = magnitude := by
    simp only [scaleOf, significandOf, exponentField]
    by_cases subnormal : magnitude / 4503599627370496 = 0
    · simp only [subnormal, ↓reduceIte]
      omega
    · simp only [subnormal, ↓reduceIte]
      omega
  simp only [nearestMagnitude, unitsPositive.ne', ↓reduceIte, scaleEq, rounded, parts]
  omega

end StackLisp.Binary64
