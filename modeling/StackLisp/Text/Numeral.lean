/-!
Numerals as lists of characters: the value of a digit, of a run of digits in a base, and the
digits of a number.
-/

namespace StackLisp

def digitValue? (c : Char) : Option Nat :=
  if '0' ≤ c ∧ c ≤ '9' then some (c.toNat - '0'.toNat)
  else if 'a' ≤ c ∧ c ≤ 'f' then some (c.toNat - 'a'.toNat + 10)
  else if 'A' ≤ c ∧ c ≤ 'F' then some (c.toNat - 'A'.toNat + 10)
  else none

def isDigitOf (base : Nat) (c : Char) : Bool :=
  match digitValue? c with
  | some value => value < base
  | none => false

def isDecimalDigit (c : Char) : Bool := isDigitOf 10 c

def isNumeral (base : Nat) (text : List Char) : Bool :=
  !text.isEmpty && text.all (isDigitOf base)

/-- The number that a run of digits denotes; characters that are no digits count as zero. -/
def numeralValue (base : Nat) (text : List Char) : Nat :=
  text.foldl (fun value c => value * base + (digitValue? c).getD 0) 0

def readNumeral? (base : Nat) (text : List Char) : Option Nat :=
  if isNumeral base text then some (numeralValue base text) else none

def digitChar (digit : Nat) : Char :=
  if digit < 10 then Char.ofNat ('0'.toNat + digit) else Char.ofNat ('a'.toNat + digit - 10)

/-- The digits of a number in front of digits already written; `fuel` bounds their count. -/
def numeralFrom (base : Nat) : Nat → Nat → List Char → List Char
  | 0, _, written => written
  | fuel + 1, value, written =>
    let written := digitChar (value % base) :: written
    if value / base = 0 then written else numeralFrom base fuel (value / base) written

/-- The digits of a number, most significant first, with no leading zero. -/
def numeral (base value : Nat) : List Char := numeralFrom base (value + 1) value []

def decimalText (value : Nat) : String := String.ofList (numeral 10 value)

def signedText (value : Int) : String :=
  if value < 0 then String.ofList ('-' :: numeral 10 value.natAbs) else decimalText value.natAbs

def padLeft (width : Nat) (text : String) : String :=
  String.ofList (List.replicate (width - text.length) ' ') ++ text

end StackLisp
