import StackLisp.Proofs.Number.ReadBack

/-!
Which decimals have a finite number. The largest finite number is 2 ^ 1024 - 2 ^ 971, and what lies less
than half a step above it, that is below 2 ^ 1024 - 2 ^ 970, is still rounded to it. From there on a
decimal is rounded to infinity.
-/

namespace StackLisp

open Binary64

def overflowBound : Nat := (2 ^ 54 - 1) * 2 ^ 970

def Decimal.InReach (d : Decimal) : Prop :=
  d.digits * 10 ^ d.exponent.toNat < overflowBound * 10 ^ (-d.exponent).toNat

instance (d : Decimal) : Decidable d.InReach := inferInstanceAs (Decidable (_ < _))

namespace Binary64

theorem roundHalfEven_le_iff {numerator denominator bound : Nat} (divides : 0 < denominator)
    (odd : bound % 2 = 1) :
    roundHalfEven numerator denominator ≤ bound ↔
      2 * numerator < (2 * bound + 1) * denominator := by
  have parts := Nat.div_add_mod numerator denominator
  have remainder := Nat.mod_lt numerator divides
  unfold roundHalfEven
  generalize numerator / denominator = quotient at parts ⊢
  generalize numerator % denominator = rest at parts remainder ⊢
  subst parts
  dsimp only
  rcases Nat.lt_trichotomy quotient bound with below | rfl | above
  · have whole : denominator * (quotient + 1) ≤ denominator * bound :=
      Nat.mul_le_mul_left _ below
    constructor
    · intro _
      linarith
    · intro _
      split <;> omega
  · constructor
    · intro stays
      split at stays
      · omega
      next notUp =>
        have low : 2 * rest < denominator := by omega
        linarith
    · intro low
      have low' : 2 * rest < denominator := by linarith
      rw [if_neg (by omega)]
  · have whole : denominator * (bound + 1) ≤ denominator * quotient :=
      Nat.mul_le_mul_left _ above
    constructor
    · intro stays
      split at stays <;> omega
    · intro low
      exfalso
      linarith

theorem le_roundHalfEven {numerator denominator bound : Nat} (divides : 0 < denominator)
    (reached : denominator * bound ≤ numerator) : bound ≤ roundHalfEven numerator denominator := by
  have quotient : bound ≤ numerator / denominator :=
    (Nat.le_div_iff_mul_le divides).mpr (by rwa [Nat.mul_comm])
  unfold roundHalfEven
  dsimp only
  split <;> omega

theorem roundHalfEven_le {numerator denominator bound : Nat} (divides : 0 < denominator)
    (below : numerator < denominator * bound) : roundHalfEven numerator denominator ≤ bound := by
  have quotient : numerator / denominator < bound :=
    (Nat.div_lt_iff_lt_mul divides).mpr (by rwa [Nat.mul_comm])
  unfold roundHalfEven
  dsimp only
  split <;> omega

/-- A scale and a significand are a finite number below the last scale, and at the last scale unless the
significand was rounded up to the next power of two. -/
theorem min_infiniteMagnitude_lt_iff {scale rounded : Nat} (top : rounded ≤ 2 ^ 53)
    (bottom : 2045 < scale → 2 ^ 52 ≤ rounded) :
    min infiniteMagnitude (scale * 4503599627370496 + rounded) < infiniteMagnitude ↔
      scale < 2045 ∨ (scale = 2045 ∧ rounded ≤ 2 ^ 53 - 1) := by
  have infinite : infiniteMagnitude = 2047 * 4503599627370496 := rfl
  omega

section Scale

variable {numerator denominator scale : Nat}

theorem overflowBound_regroup (denominator : Nat) :
    denominator * (overflowBound * 2 ^ 1022) = overflowBound * denominator * 2 ^ 1022 := by
  rw [Nat.mul_left_comm, Nat.mul_assoc]

theorem IsScale.reached (isScale : IsScale numerator denominator scale) (large : scale ≠ 0) :
    denominator * 2 ^ scale ≤ numerator * 2 ^ 1022 := isScale.least.resolve_left large

theorem IsScale.lt_overflowBound (isScale : IsScale numerator denominator scale)
    (smaller : scale < 2045) : numerator < overflowBound * denominator := by
  refine Nat.lt_of_mul_lt_mul_right (a := 2 ^ 1022) ?_
  calc numerator * 2 ^ 1022 < denominator * 2 ^ (scale + 1) := isScale.below
    _ ≤ denominator * 2 ^ 2045 := Nat.mul_le_mul_left _ (pow_le_pow_right₀ (by decide) smaller)
    _ ≤ denominator * (overflowBound * 2 ^ 1022) := Nat.mul_le_mul_left _ (by decide +kernel)
    _ = overflowBound * denominator * 2 ^ 1022 := overflowBound_regroup denominator

theorem IsScale.overflowBound_le (isScale : IsScale numerator denominator scale)
    (larger : 2045 < scale) : overflowBound * denominator ≤ numerator := by
  refine Nat.le_of_mul_le_mul_right (c := 2 ^ 1022) ?_ (Nat.two_pow_pos _)
  calc overflowBound * denominator * 2 ^ 1022 = denominator * (overflowBound * 2 ^ 1022) :=
        (overflowBound_regroup denominator).symm
    _ ≤ denominator * 2 ^ 2046 := Nat.mul_le_mul_left _ (by decide +kernel)
    _ ≤ denominator * 2 ^ scale := Nat.mul_le_mul_left _ (pow_le_pow_right₀ (by decide) larger)
    _ ≤ numerator * 2 ^ 1022 := isScale.reached (Nat.ne_zero_of_lt larger)

theorem IsScale.significand_le (isScale : IsScale numerator denominator scale)
    (divides : 0 < denominator) :
    roundHalfEven (numerator * 2 ^ 1074) (denominator * 2 ^ scale) ≤ 2 ^ 53 := by
  have split : (2 : Nat) ^ 1074 = 2 ^ 1022 * 2 ^ 52 := by rw [← pow_add]
  refine roundHalfEven_le (Nat.mul_pos divides (Nat.two_pow_pos _)) ?_
  calc numerator * 2 ^ 1074 = numerator * 2 ^ 1022 * 2 ^ 52 := by rw [split, Nat.mul_assoc]
    _ < denominator * 2 ^ (scale + 1) * 2 ^ 52 :=
      Nat.mul_lt_mul_of_pos_right isScale.below (Nat.two_pow_pos _)
    _ = denominator * 2 ^ scale * 2 ^ 53 := by
      rw [Nat.mul_assoc, Nat.mul_assoc, ← pow_add, ← pow_add, Nat.add_assoc]

theorem IsScale.le_significand (isScale : IsScale numerator denominator scale)
    (divides : 0 < denominator) (large : scale ≠ 0) :
    2 ^ 52 ≤ roundHalfEven (numerator * 2 ^ 1074) (denominator * 2 ^ scale) := by
  have split : (2 : Nat) ^ 1074 = 2 ^ 1022 * 2 ^ 52 := by rw [← pow_add]
  refine le_roundHalfEven (Nat.mul_pos divides (Nat.two_pow_pos _)) ?_
  rw [split, ← Nat.mul_assoc]
  exact Nat.mul_le_mul_right _ (isScale.reached large)

theorem significand_le_last_iff (divides : 0 < denominator) :
    roundHalfEven (numerator * 2 ^ 1074) (denominator * 2 ^ 2045) ≤ 2 ^ 53 - 1 ↔
      numerator < overflowBound * denominator := by
  have left : 2 * (numerator * 2 ^ 1074) = numerator * 2 ^ 1075 := by
    rw [Nat.mul_left_comm, ← pow_succ']
  have right : (2 * (2 ^ 53 - 1) + 1) * (denominator * 2 ^ 2045) =
      overflowBound * denominator * 2 ^ 1075 := by
    have significand : 2 * (2 ^ 53 - 1) + 1 = 2 ^ 54 - 1 := by decide
    have powers : (2 : Nat) ^ 2045 = 2 ^ 970 * 2 ^ 1075 := by rw [← pow_add]
    rw [overflowBound, significand, powers, Nat.mul_right_comm, Nat.mul_assoc _ (2 ^ 970),
      Nat.mul_left_comm, Nat.mul_comm denominator, Nat.mul_assoc]
  rw [roundHalfEven_le_iff (by positivity) (by decide), left, right,
    Nat.mul_lt_mul_right (Nat.two_pow_pos _)]

/-- A quotient is rounded to a finite number exactly below the bound. -/
theorem nearestMagnitude_lt_iff (divides : 0 < denominator) :
    nearestMagnitude numerator denominator < infiniteMagnitude ↔
      numerator < overflowBound * denominator := by
  rcases Nat.eq_zero_or_pos numerator with rfl | positive
  · have bound : 0 < overflowBound * denominator := Nat.mul_pos (by decide +kernel) divides
    simp only [nearestMagnitude, ↓reduceIte, bound, iff_true]
    decide
  have isScale := isScale_scaleOfQuotient positive divides
  simp only [nearestMagnitude, positive.ne', ↓reduceIte]
  generalize scaleOfQuotient numerator denominator = scale at isScale ⊢
  refine (min_infiniteMagnitude_lt_iff (isScale.significand_le divides)
    fun large => isScale.le_significand divides (Nat.ne_zero_of_lt large)).trans ?_
  rcases Nat.lt_trichotomy scale 2045 with smaller | rfl | larger
  · exact iff_of_true (.inl smaller) (isScale.lt_overflowBound smaller)
  · rw [significand_le_last_iff divides]
    simp
  · refine iff_of_false ?_ (Nat.not_lt.mpr (isScale.overflowBound_le larger))
    rintro (smaller | ⟨rfl, _⟩)
    · exact Nat.lt_asymm larger smaller
    · exact Nat.lt_irrefl _ larger

end Scale

end Binary64

/-! Decimals. -/

theorem nearestDecimal_lt_iff (digits : Nat) (exponent : Int) :
    nearestDecimal digits exponent < infiniteMagnitude ↔
      digits * 10 ^ exponent.toNat < overflowBound * 10 ^ (-exponent).toNat := by
  rcases Nat.eq_zero_or_pos digits with rfl | positive
  · have bound : 0 < overflowBound * 10 ^ (-exponent).toNat :=
      Nat.mul_pos (by decide +kernel) (by positivity)
    simp only [nearestDecimal, ↓reduceIte, Nat.zero_mul, bound, iff_true]
    decide
  obtain ⟨lower, upper⟩ := numeral_length_bounds 10 (by decide) positive
  simp only [nearestDecimal, positive.ne', ↓reduceIte]
  generalize (numeral 10 digits).length = length at lower upper ⊢
  -- Early answers are given far above and far below the bound; only between them is rounding met.
  by_cases high : 310 < Int.ofNat length + exponent
  · have above : overflowBound * 10 ^ (-exponent).toNat ≤ digits * 10 ^ exponent.toNat := by
      calc overflowBound * 10 ^ (-exponent).toNat ≤ 10 ^ 310 * 10 ^ (-exponent).toNat :=
            Nat.mul_le_mul_right _ (by decide +kernel)
        _ = 10 ^ (310 + (-exponent).toNat) := (pow_add _ _ _).symm
        _ ≤ 10 ^ (length - 1 + exponent.toNat) := by
          refine Nat.pow_le_pow_right (by decide) ?_
          have : Int.ofNat length = (length : Int) := rfl
          omega
        _ = 10 ^ (length - 1) * 10 ^ exponent.toNat := pow_add _ _ _
        _ ≤ digits * 10 ^ exponent.toNat := Nat.mul_le_mul_right _ lower
    simp only [high, ↓reduceIte, Nat.lt_irrefl, false_iff]
    exact Nat.not_lt.mpr above
  by_cases low : Int.ofNat length + exponent < -330
  · have below : digits * 10 ^ exponent.toNat < overflowBound * 10 ^ (-exponent).toNat := by
      calc digits * 10 ^ exponent.toNat < 10 ^ length * 10 ^ exponent.toNat :=
            Nat.mul_lt_mul_of_pos_right upper (by positivity)
        _ = 10 ^ (length + exponent.toNat) := (pow_add _ _ _).symm
        _ ≤ 10 ^ (-exponent).toNat := by
          refine Nat.pow_le_pow_right (by decide) ?_
          have : Int.ofNat length = (length : Int) := rfl
          omega
        _ ≤ overflowBound * 10 ^ (-exponent).toNat :=
          Nat.le_mul_of_pos_left _ (by decide +kernel)
    simp only [high, low, ↓reduceIte, below, iff_true]
    decide
  · simp only [high, low, ↓reduceIte]
    exact nearestMagnitude_lt_iff (by positivity)

theorem Decimal.isFinite_toBinary64 (d : Decimal) : d.toBinary64.isFinite = true ↔ d.InReach := by
  rw [Decimal.toBinary64_eq, isFinite, decide_eq_true_eq,
    magnitude_ofMagnitude _ (nearestDecimal_le _ _)]
  exact nearestDecimal_lt_iff d.digits d.exponent

end StackLisp
