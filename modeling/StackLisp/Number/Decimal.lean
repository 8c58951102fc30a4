import StackLisp.Text.Numeral
import StackLisp.Number.Binary64

/-!
Decimal numerals with a point or an exponent, and the double-precision number nearest to each.
-/

namespace StackLisp

-- powers are those of the core library, whatever else is imported
attribute [local instance (2000)] instPowNat

/-- The number `digits * 10 ^ exponent`, with a sign that zero keeps too. -/
structure Decimal where
  negative : Bool
  digits : Nat
  exponent : Int
  deriving DecidableEq, Repr

namespace Decimal

def spanDigits (text : List Char) : List Char × List Char :=
  (text.takeWhile isDecimalDigit, text.dropWhile isDecimalDigit)

def readExponent? : List Char → Option Int
  | mark :: rest =>
    if mark = 'e' ∨ mark = 'E' then
      match rest with
      | '-' :: digits => (readNumeral? 10 digits).map fun n => -(Int.ofNat n)
      | '+' :: digits => (readNumeral? 10 digits).map Int.ofNat
      | digits => (readNumeral? 10 digits).map Int.ofNat
    else none
  | [] => none

def readEnd? : List Char → Option Int
  | [] => some 0
  | rest => readExponent? rest

/-- A numeral without its sign. It has digits on one side of a point at least, or an exponent
after digits that no point follows. -/
def readUnsigned? (negative : Bool) (text : List Char) : Option Decimal :=
  let (whole, rest) := spanDigits text
  match rest with
  | '.' :: rest =>
    let (fraction, rest) := spanDigits rest
    if whole.isEmpty && fraction.isEmpty then none
    else (readEnd? rest).map fun exponent =>
      ⟨negative, numeralValue 10 (whole ++ fraction), exponent - Int.ofNat fraction.length⟩
  | rest =>
    if whole.isEmpty then none
    else (readExponent? rest).map fun exponent => ⟨negative, numeralValue 10 whole, exponent⟩

def read? : List Char → Option Decimal
  | '-' :: text => readUnsigned? true text
  | text => readUnsigned? false text

/-- The nearest double-precision number. A numeral whose leading digit stands beyond the range of
the finite numbers, or below half of the least one, needs no division. -/
def toBinary64 (d : Decimal) : Binary64 :=
  let top := Int.ofNat (numeral 10 d.digits).length + d.exponent
  if d.digits = 0 then Binary64.ofMagnitude d.negative 0
  else if 310 < top then Binary64.ofMagnitude d.negative Binary64.infiniteMagnitude
  else if top < -330 then Binary64.ofMagnitude d.negative 0
  else if 0 ≤ d.exponent then
    Binary64.ofQuotient d.negative (d.digits * 10 ^ d.exponent.toNat) 1
  else Binary64.ofQuotient d.negative d.digits (10 ^ d.exponent.natAbs)

end Decimal

end StackLisp
