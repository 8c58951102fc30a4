import StackLisp.Number.Decimal

/-!
The fewest decimal digits that read back as a given double-precision number, and their layout.

For each count of digits the candidates are the two neighbours of the number on the grid of
decimals with that many digits. The first count with a neighbour that reads back wins; of two such
neighbours the nearer one is taken, and the upper one when both are equally near. The exact
expansion of a binary fraction is finite, so it stands behind the counts as a last resort.
-/

namespace StackLisp.Binary64

-- powers are those of the core library, whatever else is imported
attribute [local instance (2000)] instPowNat

/-- A decimal without sign: the digits as a number, and the power of ten that scales them. -/
structure Digits where
  value : Nat
  exponent : Int
  deriving DecidableEq, Repr

def atLeastPowerOfTen (numerator denominator : Nat) (power : Int) : Bool :=
  denominator * 10 ^ power.toNat ≤ numerator * 10 ^ (-power).toNat

/-- The power of ten at the leading digit of a positive quotient. The logarithm to the base two
gives a guess that is at most one off. -/
def leadingPower (numerator denominator : Nat) : Int :=
  let binary := Int.ofNat numerator.log2 - Int.ofNat denominator.log2
  let guess := Int.fdiv (binary * 30103) 100000
  if atLeastPowerOfTen numerator denominator (guess + 1) then guess + 1
  else if atLeastPowerOfTen numerator denominator guess then guess
  else if atLeastPowerOfTen numerator denominator (guess - 1) then guess - 1
  else guess - 2

def scaleByTen (numerator denominator : Nat) (power : Int) : Nat × Nat :=
  (numerator * 10 ^ (-power).toNat, denominator * 10 ^ power.toNat)

def readsBack (magnitude : Nat) (digits : Digits) : Bool :=
  (Decimal.toBinary64 ⟨false, digits.value, digits.exponent⟩).magnitude == magnitude

def neighbour? (magnitude numerator denominator : Nat) (power : Int) (count : Nat) :
    Option Digits :=
  let exponent := power + 1 - Int.ofNat count
  let (top, bottom) := scaleByTen numerator denominator exponent
  let lower : Digits := ⟨top / bottom, exponent⟩
  let upper : Digits := ⟨top / bottom + 1, exponent⟩
  match readsBack magnitude lower, readsBack magnitude upper with
  | true, true => if 2 * (top % bottom) < bottom then some lower else some upper
  | true, false => some lower
  | false, true => some upper
  | false, false => none

def exactDigits (magnitude : Nat) : Digits :=
  ⟨significandOf magnitude * 2 ^ scaleOf magnitude * 5 ^ (1074 : Nat), -1074⟩

/-- The fewest digits that read back as a finite magnitude other than zero. -/
def shortestDigits (magnitude : Nat) : Digits :=
  let numerator := significandOf magnitude * 2 ^ scaleOf magnitude
  let denominator := 2 ^ (1074 : Nat)
  let power := leadingPower numerator denominator
  match (List.range 17).findSome? fun count =>
      neighbour? magnitude numerator denominator power (count + 1) with
  | some digits => digits
  | none => exactDigits magnitude

def dropTrailingZeros (digits : List Char) : List Char :=
  (digits.reverse.dropWhile (· == '0')).reverse

def pointed : List Char → List Char
  | [] => []
  | [digit] => [digit]
  | digit :: rest => digit :: '.' :: rest

/-- Digits laid out without an exponent: `power` is the power of ten of the first digit. -/
def positional (digits : List Char) (power : Int) : List Char :=
  if power < 0 then
    '0' :: '.' :: (List.replicate (power.natAbs - 1) '0' ++ digits)
  else
    let whole := digits.take (power.toNat + 1)
    let fraction := digits.drop (power.toNat + 1)
    whole ++ List.replicate (power.toNat + 1 - whole.length) '0' ++
      '.' :: (if fraction.isEmpty then ['0'] else fraction)

/-- Positional from 1e-4 up to below 1e16, with an exponent elsewhere. -/
def layout (digits : List Char) (power : Int) : List Char :=
  if -4 ≤ power ∧ power < 16 then positional digits power
  else pointed digits ++ 'e' :: (signedText power).toList

def magnitudeChars (magnitude : Nat) : List Char :=
  if magnitude = 0 then ['0', '.', '0']
  else
    let shortest := shortestDigits magnitude
    let digits := numeral 10 shortest.value
    layout (dropTrailingZeros digits) (Int.ofNat digits.length - 1 + shortest.exponent)

/-- The text of a number: the fewest digits that read back, always with a point or an exponent. -/
def text (x : Binary64) : String :=
  if x.isNaN then "NaN"
  else
    let body := if x.isInfinite then ['i', 'n', 'f'] else magnitudeChars x.magnitude
    String.ofList (if x.negative then '-' :: body else body)

end StackLisp.Binary64
