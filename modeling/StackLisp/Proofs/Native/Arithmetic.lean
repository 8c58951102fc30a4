import StackLisp.Proofs.Meaning.Calling
import StackLisp.Proofs.Number.Word

/-!
Operators on two integers. An operator gives the word that stands for the exact result if there is one,
and its error otherwise. Two of them refuse a few results that have a word: a remainder where the
quotient has none, and a power of -1, 0 or 1 whose exponent is longer than 32 bits.
-/

namespace StackLisp

open Machine

/-- Called with some arguments, a native function comes to an outcome and does nothing else, whatever
the host is and whatever is made of requests. -/
def Standard.Returns (native : Standard) (arguments : List Value) (world : World)
    (outcome : Except Error Value) : Prop :=
  ∀ host perform, callNative host perform native.name (.standard native) arguments world =
    ofExcept outcome world

def Standard.noResult (native : Standard) : Error := .runtime (.arithmetic native.name)

def Standard.ReturnsWord (native : Standard) (arguments : List Value) (world : World)
    (result : Option Int) : Prop :=
  (∀ word : Int64, result = some word.toInt → native.Returns arguments world (.ok (.int word))) ∧
    ((∀ word : Int64, result ≠ some word.toInt) →
      native.Returns arguments world (.error native.noResult))

theorem Standard.returnsWord {native : Standard} {arguments : List Value} {world : World}
    {result : Option Int}
    (returns : native.Returns arguments world
      (wordResult native.name .int (result.bind int64?))) :
    native.ReturnsWord arguments world result := by
  constructor
  · rintro word rfl
    rwa [Option.bind_some, int64?_toInt] at returns
  · intro nowhere
    cases found : result.bind int64? with
    | none => rwa [found] at returns
    | some word =>
        obtain ⟨n, isResult, isWord⟩ := Option.bind_eq_some_iff.mp found
        rw [← int64?_eq_some_iff.mp isWord] at isResult
        exact absurd isResult (nowhere word)

theorem calculateAll_pair (store : Store) (native : String) (op : NumberOp) (neutral : Value)
    (a b : Int64) : calculateAll store native op neutral [.int a, .int b] =
      calculate store native op (.int a) (.int b) :=
  bind_pure (calculate store native op (.int a) (.int b))

theorem power_int (store : Store) (native : String) (base : Int64) {exponent : Int64}
    (natural : 0 ≤ exponent) :
    power store native (.int base) (.int exponent) =
      wordResult native .int (intPower? base exponent) := by
  simp only [power, natural, ↓reduceIte]

/-- Quotients and remainders are rounded toward zero. There is a quotient unless the divisor is zero, a
remainder unless the quotient has no word either, and a power as far as exponents of 32 bits reach; the
result is exact where it has a word. -/
theorem integer_operators_exact (a b : Int64) (world : World) :
    Standard.div.ReturnsWord [.int a, .int b] world
        (if b = 0 then none else some (a.toInt.tdiv b.toInt)) ∧
      Standard.rem.ReturnsWord [.int a, .int b] world
        (if b = 0 ∨ (a = -9223372036854775808 ∧ b = -1) then none
          else some (a.toInt.tmod b.toInt)) ∧
      (0 ≤ b → Standard.pow.ReturnsWord [.int a, .int b] world
        (if b ≤ 4294967295 then some (a.toInt ^ b.toInt.toNat) else none)) := by
  have zero : b.toInt = 0 ↔ b = 0 := Int64.toInt_inj (y := 0)
  have least : a.toInt = -9223372036854775808 ↔ a = -9223372036854775808 :=
    Int64.toInt_inj (y := -9223372036854775808)
  have minusOne : b.toInt = -1 ↔ b = -1 := Int64.toInt_inj (y := -1)
  refine ⟨Standard.returnsWord fun host perform => ?_, Standard.returnsWord fun host perform => ?_,
    fun natural => Standard.returnsWord fun host perform => ?_⟩
  · have divided : callNative host perform Standard.div.name (.standard .div) [.int a, .int b] world =
        ofExcept (calculateAll world.store Standard.div.name .div .nil [.int a, .int b]) world := rfl
    rw [divided, calculateAll_pair]
    simp only [← zero]
    rfl
  · simp only [← zero, ← least, ← minusOne]
    rfl
  · have exponent : 0 ≤ b.toInt := Int64.le_iff_toInt_le.mp natural
    have reach : b ≤ 4294967295 ↔ b.toInt ≤ 4294967295 := Int64.le_iff_toInt_le
    have power : callNative host perform Standard.pow.name (.standard .pow) [.int a, .int b] world =
        ofExcept (power world.store Standard.pow.name (.int a) (.int b)) world := rfl
    rw [power, power_int _ _ _ natural, intPower?_eq a exponent]
    simp only [reach]
    split <;> rfl

theorem integer_operators_exact_least :
    Standard.div.ReturnsWord [.int (-9223372036854775808), .int 1] default
        (some (-9223372036854775808)) ∧
      Standard.rem.ReturnsWord [.int (-9223372036854775808), .int 1] default (some 0) ∧
      (0 : Int64) ≤ 63 ∧
      Standard.pow.ReturnsWord [.int (-2), .int 63] default (some (-9223372036854775808)) := by
  obtain ⟨divided, remainder, _⟩ := integer_operators_exact (-9223372036854775808) 1 default
  obtain ⟨_, _, power⟩ := integer_operators_exact (-2) 63 default
  have natural : (0 : Int64) ≤ 63 := by decide
  exact ⟨divided, remainder, natural, power natural⟩

/-- There is a remainder of zero and a power of one, and the operators refuse to give them. -/
theorem Interpreter.results_refused :
    ((-9223372036854775808 : Int).tmod (-1) = (0 : Int64).toInt ∧
        (Machine.attempt (evalText .none 30 "(% -9223372036854775808 -1)")).run'
          (fresh ⟨10000, 32, false, false, false⟩) = some (.error Standard.rem.noResult)) ∧
      (1 : Int) ^ 4294967296 = (1 : Int64).toInt ∧
        (Machine.attempt (evalText .none 30 "(** 1 4294967296)")).run'
          (fresh ⟨10000, 32, false, false, false⟩) = some (.error Standard.pow.noResult) := by
  refine ⟨⟨by decide, ?_⟩, one_pow _, ?_⟩
  · decide +kernel
  · decide +kernel

end StackLisp
