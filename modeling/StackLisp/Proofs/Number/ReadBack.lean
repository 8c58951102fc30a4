import StackLisp.Number.Shortest
import StackLisp.Proofs.Number.Numeral
import StackLisp.Proofs.Number.Rounding

/-!
The text of a finite double-precision number reads back as that number. The digits that are chosen
read back by the way they are chosen; the layout moves the point and adds or drops zeros, which
leaves the value of a decimal alone.
-/

namespace StackLisp

open Binary64

def nearestDecimal (digits : Nat) (exponent : Int) : Nat :=
  let top := Int.ofNat (numeral 10 digits).length + exponent
  if digits = 0 then 0
  else if 310 < top then infiniteMagnitude
  else if top < -330 then 0
  else nearestMagnitude (digits * 10 ^ exponent.toNat) (10 ^ (-exponent).toNat)

theorem nearestDecimal_le (digits : Nat) (exponent : Int) :
    nearestDecimal digits exponent ≤ infiniteMagnitude := by
  unfold nearestDecimal
  dsimp only
  split
  · exact Nat.zero_le _
  split
  · exact Nat.le_refl _
  split
  · exact Nat.zero_le _
  · exact nearestMagnitude_le _ _

theorem Decimal.toBinary64_eq (d : Decimal) :
    d.toBinary64 = ofMagnitude d.negative (nearestDecimal d.digits d.exponent) := by
  unfold Decimal.toBinary64 nearestDecimal
  dsimp only
  split
  · rfl
  split
  · rfl
  split
  · rfl
  split
  next nonneg =>
    have zero : (-d.exponent).toNat = 0 := by omega
    rw [zero]
    rfl
  next neg =>
    have zero : d.exponent.toNat = 0 := by omega
    have size : (-d.exponent).toNat = d.exponent.natAbs := by omega
    rw [zero, size, pow_zero, Nat.mul_one]
    rfl

theorem nearestMagnitude_congr {numerator denominator top bottom : Nat}
    (divides : 0 < denominator) (alsoDivides : 0 < bottom)
    (same : numerator * bottom = top * denominator) :
    nearestMagnitude numerator denominator = nearestMagnitude top bottom := by
  rw [← nearestMagnitude_mul_right divides alsoDivides, same, Nat.mul_comm denominator,
    nearestMagnitude_mul_right alsoDivides divides]

theorem nearestDecimal_mul_pow (digits count : Nat) (exponent : Int) :
    nearestDecimal (digits * 10 ^ count) (exponent - count) = nearestDecimal digits exponent := by
  rcases Nat.eq_zero_or_pos digits with rfl | positive
  · simp [nearestDecimal]
  · have scaled : digits * 10 ^ count ≠ 0 := (Nat.mul_pos positive (by positivity)).ne'
    have top : Int.ofNat (numeral 10 (digits * 10 ^ count)).length + (exponent - count) =
        Int.ofNat (numeral 10 digits).length + exponent := by
      rw [numeral_mul_pow 10 (by decide) positive]
      simp
    have value : nearestMagnitude (digits * 10 ^ count * 10 ^ (exponent - count).toNat)
          (10 ^ (-(exponent - count)).toNat) =
        nearestMagnitude (digits * 10 ^ exponent.toNat) (10 ^ (-exponent).toNat) := by
      apply nearestMagnitude_congr (by positivity) (by positivity)
      rw [Nat.mul_assoc, Nat.mul_assoc, Nat.mul_assoc, ← pow_add, ← pow_add, ← pow_add]
      congr 2
      omega
    simp only [nearestDecimal, scaled, positive.ne', ↓reduceIte, top, value]

/-! The digits that are chosen. -/

theorem readsBack_iff (magnitude : Nat) (digits : Digits) :
    readsBack magnitude digits = true ↔
      nearestDecimal digits.value digits.exponent = magnitude := by
  simp [readsBack, Decimal.toBinary64_eq, magnitude_ofMagnitude _ (nearestDecimal_le _ _)]

theorem readsBack_of_neighbour? {magnitude numerator denominator count : Nat} {power : Int}
    {digits : Digits}
    (found : neighbour? magnitude numerator denominator power count = some digits) :
    readsBack magnitude digits = true := by
  unfold neighbour? at found
  dsimp only at found
  split at found
  next lower upper =>
    split at found
    · cases found
      exact lower
    · cases found
      exact upper
  next lower upper =>
    cases found
    exact lower
  next lower upper =>
    cases found
    exact upper
  next => simp at found

theorem numeral_length_le {value count : Nat} (below : value < 10 ^ count)
    (positive : 0 < value) : (numeral 10 value).length ≤ count := by
  by_contra longer
  obtain ⟨lower, _⟩ := numeral_length_bounds 10 (by decide) positive
  have : 10 ^ count ≤ 10 ^ ((numeral 10 value).length - 1) :=
    Nat.pow_le_pow_right (by decide) (by omega)
  omega

theorem lt_numeral_length {value count : Nat} (above : 10 ^ count ≤ value) :
    count < (numeral 10 value).length := by
  have positive : 0 < value := Nat.lt_of_lt_of_le (by positivity) above
  obtain ⟨_, upper⟩ := numeral_length_bounds 10 (by decide) positive
  exact (Nat.pow_lt_pow_iff_right (by decide)).mp (Nat.lt_of_le_of_lt above upper)

theorem ten_pow (count : Nat) : 10 ^ count = 2 ^ count * 5 ^ count := by
  rw [← Nat.mul_pow]

theorem units_bounds {magnitude : Nat} (positive : 0 < magnitude)
    (finite : magnitude < infiniteMagnitude) :
    0 < significandOf magnitude * 2 ^ scaleOf magnitude ∧
      significandOf magnitude * 2 ^ scaleOf magnitude < 2 ^ 2098 := by
  have : infiniteMagnitude = 9218868437227405312 := rfl
  have significandPositive : 0 < significandOf magnitude := by
    unfold significandOf
    split <;> omega
  have significandUpper : significandOf magnitude < 2 ^ 53 := by
    unfold significandOf exponentField
    split <;> omega
  have scaleUpper : scaleOf magnitude ≤ 2045 := by
    unfold scaleOf exponentField
    omega
  refine ⟨Nat.mul_pos significandPositive (by positivity), ?_⟩
  refine Nat.lt_of_lt_of_le
    (Nat.mul_lt_mul_of_pos_right significandUpper (Nat.two_pow_pos _)) ?_
  rw [← pow_add]
  exact pow_le_pow_right₀ (by decide) (by omega)

theorem nearestDecimal_exactDigits {magnitude : Nat} (positive : 0 < magnitude)
    (finite : magnitude < infiniteMagnitude) :
    nearestDecimal (exactDigits magnitude).value (exactDigits magnitude).exponent = magnitude := by
  obtain ⟨unitsPositive, unitsUpper⟩ := units_bounds positive finite
  have valuePositive : 0 < significandOf magnitude * 2 ^ scaleOf magnitude * 5 ^ 1074 :=
    Nat.mul_pos unitsPositive (by positivity)
  have short : (numeral 10 (significandOf magnitude * 2 ^ scaleOf magnitude * 5 ^ 1074)).length
      ≤ 1383 := by
    refine numeral_length_le ?_ valuePositive
    calc significandOf magnitude * 2 ^ scaleOf magnitude * 5 ^ 1074
        < 2 ^ 2098 * 5 ^ 1074 := Nat.mul_lt_mul_of_pos_right unitsUpper (by positivity)
      _ ≤ 10 ^ 1383 := by decide +kernel
  have long : 750 <
      (numeral 10 (significandOf magnitude * 2 ^ scaleOf magnitude * 5 ^ 1074)).length := by
    apply lt_numeral_length
    calc 10 ^ 750 ≤ 1 * 5 ^ 1074 := by decide +kernel
      _ ≤ significandOf magnitude * 2 ^ scaleOf magnitude * 5 ^ 1074 :=
        Nat.mul_le_mul_right _ unitsPositive
  have value : nearestMagnitude
      (significandOf magnitude * 2 ^ scaleOf magnitude * 5 ^ 1074) (10 ^ 1074) = magnitude := by
    rw [ten_pow, nearestMagnitude_mul_right (by positivity) (by positivity)]
    exact nearestMagnitude_exact positive finite
  have notHigh : ¬ (310 : Int) < Int.ofNat
      (numeral 10 (significandOf magnitude * 2 ^ scaleOf magnitude * 5 ^ 1074)).length + -1074 := by
    have : Int.ofNat (numeral 10
      (significandOf magnitude * 2 ^ scaleOf magnitude * 5 ^ 1074)).length ≤ 1383 :=
      Int.ofNat_le.mpr short
    omega
  have notLow : ¬ Int.ofNat
      (numeral 10 (significandOf magnitude * 2 ^ scaleOf magnitude * 5 ^ 1074)).length + -1074 <
        (-330 : Int) := by
    have : 750 < Int.ofNat (numeral 10
      (significandOf magnitude * 2 ^ scaleOf magnitude * 5 ^ 1074)).length :=
      Int.ofNat_lt.mpr long
    omega
  have noFactor : (-1074 : Int).toNat = 0 := rfl
  have divisor : (-(-1074) : Int).toNat = 1074 := rfl
  simp only [exactDigits, nearestDecimal, valuePositive.ne', ↓reduceIte, notHigh, notLow]
  rw [noFactor, divisor, pow_zero, Nat.mul_one]
  exact value

theorem nearestDecimal_shortestDigits {magnitude : Nat} (positive : 0 < magnitude)
    (finite : magnitude < infiniteMagnitude) :
    nearestDecimal (shortestDigits magnitude).value (shortestDigits magnitude).exponent =
      magnitude := by
  unfold shortestDigits
  dsimp only
  split
  next digits found =>
    obtain ⟨count, _, neighbour⟩ := List.exists_of_findSome?_eq_some found
    exact (readsBack_iff magnitude digits).mp (readsBack_of_neighbour? neighbour)
  next => exact nearestDecimal_exactDigits positive finite

/-! Reading what is laid out. -/

theorem spanDigits_append {run : List Char} (rest : List Char) (digits : run.all isDecimalDigit = true)
    (stops : ∀ c ∈ rest.head?, isDecimalDigit c = false) :
    Decimal.spanDigits (run ++ rest) = (run, rest) := by
  have restStops : rest.takeWhile isDecimalDigit = [] ∧ rest.dropWhile isDecimalDigit = rest := by
    cases rest with
    | nil => exact ⟨rfl, rfl⟩
    | cons c later => simp [stops c (by simp)]
  have all : ∀ c ∈ run, isDecimalDigit c = true := by simpa using digits
  simp [Decimal.spanDigits, List.takeWhile_append_of_pos all, List.dropWhile_append_of_pos all,
    restStops]

theorem readUnsigned?_point (whole fraction rest : List Char) {exponent : Int} (negative : Bool)
    (wholeDigits : whole.all isDecimalDigit = true)
    (fractionDigits : fraction.all isDecimalDigit = true) (nonempty : whole ≠ [])
    (stops : ∀ c ∈ rest.head?, isDecimalDigit c = false)
    (ends : Decimal.readEnd? rest = some exponent) :
    Decimal.readUnsigned? negative (whole ++ '.' :: (fraction ++ rest)) =
      some ⟨negative, numeralValue 10 (whole ++ fraction),
        exponent - Int.ofNat fraction.length⟩ := by
  have first := spanDigits_append ('.' :: (fraction ++ rest)) wholeDigits
    (by simp [isDecimalDigit, isDigitOf, digitValue?])
  have second := spanDigits_append rest fractionDigits stops
  simp [Decimal.readUnsigned?, first, second, nonempty, ends]

theorem readUnsigned?_exponent {whole rest : List Char} {exponent : Int} (negative : Bool)
    (wholeDigits : whole.all isDecimalDigit = true) (nonempty : whole ≠ [])
    (ends : Decimal.readExponent? ('e' :: rest) = some exponent) :
    Decimal.readUnsigned? negative (whole ++ 'e' :: rest) =
      some ⟨negative, numeralValue 10 whole, exponent⟩ := by
  have span := spanDigits_append ('e' :: rest) wholeDigits
    (by simp [isDecimalDigit, isDigitOf, digitValue?])
  simp [Decimal.readUnsigned?, span, nonempty, ends]

theorem readNumeral?_numeral (value : Nat) : readNumeral? 10 (numeral 10 value) = some value := by
  simp [readNumeral?, isNumeral_numeral 10 (by decide) (by decide),
    numeralValue_numeral 10 (by decide) (by decide)]

theorem numeral_cons (value : Nat) :
    ∃ digit rest, numeral 10 value = digit :: rest ∧ isDecimalDigit digit = true := by
  cases chars : numeral 10 value with
  | nil => exact absurd chars (numeral_ne_nil 10 (by decide) value)
  | cons digit rest =>
      have all := numeral_all_digits 10 (by decide) (by decide) value
      rw [chars, List.all_cons, Bool.and_eq_true] at all
      exact ⟨digit, rest, rfl, all.1⟩

theorem readExponent?_signedText (power : Int) :
    Decimal.readExponent? ('e' :: (signedText power).toList) = some power := by
  unfold signedText
  split
  next negative =>
    have size : (power.natAbs : Int) = -power := by omega
    simp [Decimal.readExponent?, readNumeral?_numeral, size]
  next nonnegative =>
    have read := readNumeral?_numeral power.natAbs
    obtain ⟨digit, rest, chars, isDigit⟩ := numeral_cons power.natAbs
    have noMinus : digit ≠ '-' := by
      rintro rfl
      exact absurd isDigit (by decide)
    have noPlus : digit ≠ '+' := by
      rintro rfl
      exact absurd isDigit (by decide)
    rw [chars] at read
    simp only [decimalText, String.toList_ofList, chars, Decimal.readExponent?, true_or,
      ↓reduceIte]
    split
    next heq => exact absurd (List.cons.inj heq).1 noMinus
    next heq => exact absurd (List.cons.inj heq).1 noPlus
    next =>
      simp [read]
      omega

theorem isDecimalDigit_zero : isDecimalDigit '0' = true := by decide

theorem zeros_all_digits (count : Nat) :
    (List.replicate count '0').all isDecimalDigit = true := by
  simp [isDecimalDigit_zero]

theorem positional_below {digits : List Char} {power : Int} (below : power < 0) :
    positional digits power =
      ['0'] ++ '.' :: (List.replicate (power.natAbs - 1) '0' ++ digits ++ []) := by
  simp [positional, below]

theorem positional_short {digits : List Char} {power : Int} (above : 0 ≤ power)
    (short : digits.length ≤ power.toNat + 1) :
    positional digits power =
      digits ++ List.replicate (power.toNat + 1 - digits.length) '0' ++ '.' :: (['0'] ++ []) := by
  have noFraction : digits.drop (power.toNat + 1) = [] := List.drop_of_length_le short
  have whole : digits.take (power.toNat + 1) = digits := List.take_of_length_le short
  have notBelow : ¬power < 0 := by omega
  simp [positional, notBelow, noFraction, whole]

theorem positional_long {digits : List Char} {power : Int} (above : 0 ≤ power)
    (long : power.toNat + 1 < digits.length) :
    positional digits power =
      digits.take (power.toNat + 1) ++ '.' :: (digits.drop (power.toNat + 1) ++ []) := by
  have hasFraction : digits.drop (power.toNat + 1) ≠ [] := by
    intro none
    have := List.drop_eq_nil_iff.mp none
    omega
  have filled : power.toNat + 1 - min (power.toNat + 1) digits.length = 0 := by omega
  have notBelow : ¬power < 0 := by omega
  simp [positional, notBelow, hasFraction, filled]

theorem readUnsigned?_positional {digits : List Char}
    (allDigits : digits.all isDecimalDigit = true) (nonempty : digits ≠ []) (negative : Bool)
    (power : Int) :
    ∃ value exponent, Decimal.readUnsigned? negative (positional digits power) =
        some ⟨negative, value, exponent⟩ ∧
      nearestDecimal value exponent =
        nearestDecimal (numeralValue 10 digits) (power + 1 - digits.length) := by
  by_cases below : power < 0
  · have read := readUnsigned?_point ['0']
      (List.replicate (power.natAbs - 1) '0' ++ digits) [] negative
      (by decide) (by rw [List.all_append, zeros_all_digits, allDigits]; rfl) (by simp)
      (by simp) rfl
    rw [← positional_below below] at read
    refine ⟨_, _, read, ?_⟩
    have zero : numeralValue 10 ['0'] = 0 := by decide
    rw [numeralValue_append, numeralValue_append, numeralValue_replicate_zero]
    congr 1
    · simp [zero]
    · simp
      omega
  · have above : 0 ≤ power := by omega
    by_cases short : digits.length ≤ power.toNat + 1
    · have read := readUnsigned?_point
        (digits ++ List.replicate (power.toNat + 1 - digits.length) '0')
        ['0'] [] negative
        (by rw [List.all_append, zeros_all_digits, allDigits]; rfl) (by decide)
        (by simp [nonempty]) (by simp) rfl
      rw [← positional_short above short] at read
      refine ⟨_, _, read, ?_⟩
      rw [List.append_assoc, ← List.replicate_succ', numeralValue_append,
        numeralValue_replicate_zero, List.length_replicate, Nat.add_zero,
        ← nearestDecimal_mul_pow (numeralValue 10 digits) (power.toNat + 1 - digits.length + 1)]
      have exponent : (0 : Int) - Int.ofNat ['0'].length =
          power + 1 - digits.length - (power.toNat + 1 - digits.length + 1 : Nat) := by
        simp only [List.length_singleton, Int.ofNat_eq_natCast]
        omega
      rw [exponent]
    · have takeDigits : (digits.take (power.toNat + 1)).all isDecimalDigit = true := by
        simp only [List.all_eq_true] at allDigits ⊢
        exact fun c member => allDigits c (List.mem_of_mem_take member)
      have dropDigits : (digits.drop (power.toNat + 1)).all isDecimalDigit = true := by
        simp only [List.all_eq_true] at allDigits ⊢
        exact fun c member => allDigits c (List.mem_of_mem_drop member)
      have read := readUnsigned?_point _ _ [] negative takeDigits dropDigits
        (by simp [nonempty]) (by simp) rfl
      rw [← positional_long above (by omega)] at read
      refine ⟨_, _, read, ?_⟩
      have exponent : (0 : Int) - Int.ofNat (digits.drop (power.toNat + 1)).length =
          power + 1 - digits.length := by
        simp only [List.length_drop, Int.ofNat_eq_natCast]
        omega
      rw [List.take_append_drop, exponent]

theorem readUnsigned?_pointed {digits : List Char}
    (allDigits : digits.all isDecimalDigit = true) (nonempty : digits ≠ []) (negative : Bool)
    (power : Int) :
    Decimal.readUnsigned? negative (pointed digits ++ 'e' :: (signedText power).toList) =
      some ⟨negative, numeralValue 10 digits, power + 1 - digits.length⟩ := by
  have ends := readExponent?_signedText power
  match digits, nonempty with
  | [digit], _ =>
      rw [pointed, readUnsigned?_exponent negative allDigits (by simp) ends]
      simp
  | digit :: next :: later, _ =>
      simp only [List.all_cons, Bool.and_eq_true] at allDigits
      have read := readUnsigned?_point [digit] (next :: later)
        ('e' :: (signedText power).toList) negative (by simp [allDigits.1])
        (by simp [allDigits.2]) (by simp) (by simp [isDecimalDigit, isDigitOf, digitValue?]) ends
      simp only [pointed, List.cons_append, List.nil_append] at read ⊢
      rw [read]
      simp

theorem readUnsigned?_layout {digits : List Char}
    (allDigits : digits.all isDecimalDigit = true) (nonempty : digits ≠ []) (negative : Bool)
    (power : Int) :
    ∃ value exponent, Decimal.readUnsigned? negative (layout digits power) =
        some ⟨negative, value, exponent⟩ ∧
      nearestDecimal value exponent =
        nearestDecimal (numeralValue 10 digits) (power + 1 - digits.length) := by
  unfold layout
  split
  · exact readUnsigned?_positional allDigits nonempty negative power
  · exact ⟨_, _, readUnsigned?_pointed allDigits nonempty negative power, rfl⟩

theorem dropTrailingZeros_append (digits : List Char) :
    ∃ count, digits = dropTrailingZeros digits ++ List.replicate count '0' := by
  have zeros : ∀ c ∈ digits.reverse.takeWhile (· == '0'), c = '0' := by
    have all := List.all_takeWhile (p := (· == '0')) (l := digits.reverse)
    rw [List.all_eq_true] at all
    exact fun c member => eq_of_beq (all c member)
  refine ⟨(digits.reverse.takeWhile (· == '0')).length, ?_⟩
  have cut := congrArg List.reverse (List.takeWhile_append_dropWhile (p := (· == '0'))
    (l := digits.reverse))
  rw [List.reverse_append, List.reverse_reverse,
    List.eq_replicate_of_mem zeros, List.reverse_replicate] at cut
  exact cut.symm

theorem readUnsigned?_magnitudeChars {magnitude : Nat} (finite : magnitude < infiniteMagnitude)
    (negative : Bool) :
    ∃ value exponent, Decimal.readUnsigned? negative (magnitudeChars magnitude) =
        some ⟨negative, value, exponent⟩ ∧ nearestDecimal value exponent = magnitude := by
  unfold magnitudeChars
  split
  next zero => exact ⟨0, -1, by simp [Decimal.readUnsigned?, Decimal.spanDigits, isDecimalDigit,
    isDigitOf, digitValue?, Decimal.readEnd?, numeralValue], by simp [nearestDecimal, zero]⟩
  next nonzero =>
    have chosen := nearestDecimal_shortestDigits (Nat.pos_of_ne_zero nonzero) finite
    dsimp only
    generalize shortestDigits magnitude = shortest at chosen
    have value := numeralValue_numeral 10 (by decide) (by decide) shortest.value
    have allDigits := numeral_all_digits 10 (by decide) (by decide) shortest.value
    generalize numeral 10 shortest.value = digits at value allDigits
    obtain ⟨count, cut⟩ := dropTrailingZeros_append digits
    have trimmedDigits : (dropTrailingZeros digits).all isDecimalDigit = true := by
      rw [cut, List.all_append, Bool.and_eq_true] at allDigits
      exact allDigits.1
    have trimmedValue : numeralValue 10 (dropTrailingZeros digits) * 10 ^ count =
        shortest.value := by
      rw [← value, cut, numeralValue_append, numeralValue_replicate_zero, List.length_replicate,
        ← cut, Nat.add_zero]
    have nonempty : dropTrailingZeros digits ≠ [] := by
      intro none
      rw [none] at trimmedValue
      rw [← trimmedValue] at chosen
      simp [numeralValue, nearestDecimal] at chosen
      omega
    obtain ⟨read, exponent, readEq, nearest⟩ := readUnsigned?_layout trimmedDigits nonempty
      negative (Int.ofNat digits.length - 1 + shortest.exponent)
    refine ⟨read, exponent, readEq, ?_⟩
    rw [nearest, ← chosen, ← trimmedValue,
      ← nearestDecimal_mul_pow (numeralValue 10 (dropTrailingZeros digits)) count]
    congr 1
    have size : digits.length = (dropTrailingZeros digits).length + count := by
      conv_lhs => rw [cut]
      simp
    simp only [Int.ofNat_eq_natCast]
    omega

def isFloatChar (c : Char) : Bool := isDecimalDigit c || c == '-' || c == '.' || c == 'e'

theorem all_isFloatChar_of_digits {digits : List Char}
    (allDigits : digits.all isDecimalDigit = true) : digits.all isFloatChar = true := by
  simp only [List.all_eq_true] at allDigits ⊢
  intro c member
  simp [isFloatChar, allDigits c member]

theorem layout_chars {digits : List Char} (allDigits : digits.all isDecimalDigit = true)
    (power : Int) :
    (layout digits power).all isFloatChar = true ∧
      ('.' ∈ layout digits power ∨ 'e' ∈ layout digits power) := by
  have numeralChars (value : Nat) : (numeral 10 value).all isFloatChar = true :=
    all_isFloatChar_of_digits (numeral_all_digits 10 (by decide) (by decide) value)
  have zeros (count : Nat) : (List.replicate count '0').all isFloatChar = true :=
    all_isFloatChar_of_digits (zeros_all_digits count)
  have marks : isFloatChar '.' = true ∧ isFloatChar 'e' = true ∧ isFloatChar '-' = true ∧
      isFloatChar '0' = true := by decide
  have sub {part : List Char} (included : part ⊆ digits) : part.all isFloatChar = true := by
    have chars := all_isFloatChar_of_digits allDigits
    simp only [List.all_eq_true] at chars ⊢
    exact fun c member => chars c (included member)
  have signed : (signedText power).toList.all isFloatChar = true := by
    unfold signedText
    split
    · simp only [String.toList_ofList, List.all_cons, marks, numeralChars, Bool.and_self]
    · simp only [decimalText, String.toList_ofList, numeralChars]
  unfold layout
  split
  · refine ⟨?_, .inl ?_⟩
    · by_cases below : power < 0
      · simp only [positional_below below, List.all_append, List.all_cons, List.all_nil, marks,
          zeros, all_isFloatChar_of_digits allDigits, Bool.and_self]
      · by_cases short : digits.length ≤ power.toNat + 1
        · simp only [positional_short (by omega) short, List.all_append, List.all_cons,
            List.all_nil, marks, zeros, all_isFloatChar_of_digits allDigits, Bool.and_self]
        · simp only [positional_long (Int.not_lt.mp below) (Nat.lt_of_not_le short),
            List.all_append, List.all_cons, List.all_nil, marks,
            sub (List.take_subset _ _), sub (List.drop_subset _ _), Bool.and_self]
    · unfold positional
      split <;> simp
  · refine ⟨?_, .inr (by simp)⟩
    have pointedChars : (pointed digits).all isFloatChar = true := by
      have all := all_isFloatChar_of_digits allDigits
      match digits with
      | [] => rfl
      | [digit] => exact all
      | digit :: next :: later =>
          rw [List.all_cons] at all
          simp only [pointed, List.all_cons, marks, Bool.true_and] at all ⊢
          exact all
    simp only [List.all_append, List.all_cons, marks, pointedChars, signed, Bool.and_self]

theorem magnitudeChars_chars (magnitude : Nat) :
    (magnitudeChars magnitude).all isFloatChar = true ∧
      ('.' ∈ magnitudeChars magnitude ∨ 'e' ∈ magnitudeChars magnitude) := by
  unfold magnitudeChars
  split
  · decide
  · dsimp only
    apply layout_chars
    have allDigits := numeral_all_digits 10 (by decide) (by decide)
      (shortestDigits magnitude).value
    obtain ⟨count, cut⟩ := dropTrailingZeros_append (numeral 10 (shortestDigits magnitude).value)
    rw [cut, List.all_append, Bool.and_eq_true] at allDigits
    exact allDigits.1

theorem readUnsigned?_minus (negative : Bool) (rest : List Char) :
    Decimal.readUnsigned? negative ('-' :: rest) = none := by
  simp [Decimal.readUnsigned?, Decimal.spanDigits, isDecimalDigit, isDigitOf, digitValue?]

namespace Binary64

variable {x : Binary64}

theorem text_of_isFinite (finite : x.isFinite = true) :
    x.text.toList = if x.negative then '-' :: magnitudeChars x.magnitude
      else magnitudeChars x.magnitude := by
  have bound : x.magnitude < infiniteMagnitude := by simpa [isFinite] using finite
  have notNaN : x.isNaN = false := by simp [isNaN]; omega
  have notInfinite : x.isInfinite = false := by simp [isInfinite]; omega
  simp [text, notNaN, notInfinite]

/-- The text of a finite number reads back as that number, sign included. -/
theorem read?_text (finite : x.isFinite = true) :
    ∃ d, Decimal.read? x.text.toList = some d ∧ d.toBinary64 = x := by
  have bound : x.magnitude < infiniteMagnitude := by simpa [isFinite] using finite
  obtain ⟨value, exponent, read, nearest⟩ :=
    readUnsigned?_magnitudeChars bound x.negative
  refine ⟨⟨x.negative, value, exponent⟩, ?_, ?_⟩
  · rw [text_of_isFinite finite]
    cases sign : x.negative with
    | true =>
        rw [sign] at read
        exact read
    | false =>
        rw [sign] at read
        simp only [Bool.false_eq_true, ↓reduceIte]
        unfold Decimal.read?
        split
        next rest signed =>
          rw [signed, readUnsigned?_minus] at read
          exact absurd read (by simp)
        next => exact read
  · rw [Decimal.toBinary64_eq, nearest, ofMagnitude_magnitude]

theorem text_chars (finite : x.isFinite = true) :
    x.text.toList.all isFloatChar = true ∧ ('.' ∈ x.text.toList ∨ 'e' ∈ x.text.toList) := by
  obtain ⟨all, mark⟩ := magnitudeChars_chars x.magnitude
  rw [text_of_isFinite finite]
  split
  · have minus : isFloatChar '-' = true := by decide
    exact ⟨by rw [List.all_cons, minus, all]; rfl,
      mark.imp (List.mem_cons_of_mem _) (List.mem_cons_of_mem _)⟩
  · exact ⟨all, mark⟩

end Binary64

end StackLisp
