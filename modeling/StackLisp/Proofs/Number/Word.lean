import Mathlib.Algebra.Order.Ring.Abs
import StackLisp.Number.Word

/-!
Words and the integers that they stand for. An exact result has a word of its own or none at all, so a
checked operation gives the one word that stands for the exact result, if there is such a word.
-/

namespace StackLisp

theorem int64?_toInt (n : Int64) : int64? n.toInt = some n := by
  have low := Int64.le_toInt n
  have high := Int64.toInt_lt n
  simp only [int64?, Int64.ofInt_toInt]
  rw [if_pos]
  omega

theorem uint64?_toNat (n : UInt64) : uint64? (Int.ofNat n.toNat) = some n := by
  have high := UInt64.toNat_lt n
  simp only [uint64?, Int.ofNat_eq_natCast, Int.toNat_natCast, UInt64.ofNat_toNat]
  rw [if_pos]
  omega

theorem int64?_eq_some_iff {n : Int} {word : Int64} : int64? n = some word ↔ word.toInt = n := by
  constructor
  · intro found
    unfold int64? at found
    split at found
    next fits =>
      cases found
      exact Int64.toInt_ofInt_of_le (by omega) (by omega)
    next => cases found
  · rintro rfl
    exact int64?_toInt word

theorem uint64?_eq_some_iff {n : Int} {word : UInt64} :
    uint64? n = some word ↔ (word.toNat : Int) = n := by
  constructor
  · intro found
    unfold uint64? at found
    split at found
    next fits =>
      cases found
      have below : n.toNat < 2 ^ 64 := by omega
      rw [UInt64.toNat_ofNat_of_lt' below]
      omega
    next => cases found
  · rintro rfl
    exact uint64?_toNat word

theorem int64?_eq_none_iff {n : Int} : int64? n = none ↔
    ¬ (-9223372036854775808 ≤ n ∧ n ≤ 9223372036854775807) := by
  unfold int64?
  split
  next fits => simp [fits]
  next apart => simp [apart]

/-! Powers. -/

theorem two_pow_le_natAbs_pow {base : Int} (large : 2 ≤ base.natAbs) (exponent : Nat) :
    2 ^ exponent ≤ (base ^ exponent).natAbs := by
  rw [Int.natAbs_pow]
  exact Nat.pow_le_pow_left large exponent

theorem int64?_pow_of_large {base : Int} (large : 2 ≤ base.natAbs) {exponent : Nat}
    (long : 64 ≤ exponent) : int64? (base ^ exponent) = none := by
  have grown : 2 ^ 64 ≤ (base ^ exponent).natAbs :=
    (Nat.pow_le_pow_right (by decide) long).trans (two_pow_le_natAbs_pow large exponent)
  rw [int64?_eq_none_iff]
  omega

theorem zero_pow_min (exponent : Nat) : (0 : Int) ^ min exponent 1 = 0 ^ exponent := by
  cases exponent with
  | zero => rfl
  | succ exponent => rw [Nat.min_eq_right (by omega), pow_one, zero_pow (by omega)]

theorem neg_one_pow_mod_two (exponent : Nat) : (-1 : Int) ^ (exponent % 2) = (-1) ^ exponent := by
  conv_rhs => rw [← Nat.mod_add_div exponent 2, pow_add, pow_mul, neg_one_sq, one_pow, mul_one]

theorem intPower?_eq (base : Int64) {exponent : Int64} (natural : 0 ≤ exponent.toInt) :
    intPower? base exponent =
      if exponent.toInt ≤ 4294967295 then int64? (base.toInt ^ exponent.toInt.toNat) else none := by
  unfold intPower?
  generalize base.toInt = b
  generalize size : exponent.toInt.toNat = e
  have same : (4294967296 ≤ e) ↔ ¬ exponent.toInt ≤ 4294967295 := by omega
  simp only [ge_iff_le, same]
  by_cases inReach : exponent.toInt ≤ 4294967295
  · simp only [inReach, not_true_eq_false, ↓reduceIte]
    split
    next trivialBase =>
      rcases trivialBase with rfl | rfl
      · exact congrArg int64? (zero_pow_min e)
      · exact congrArg int64? ((one_pow _).trans (one_pow e).symm)
    next notTrivial =>
      split
      next minusOne =>
        subst minusOne
        exact congrArg int64? (neg_one_pow_mod_two e)
      next notMinusOne =>
        split
        · rfl
        next long => exact (int64?_pow_of_large (by omega) (by omega)).symm
  · simp only [inReach, not_false_eq_true, ↓reduceIte]

end StackLisp
