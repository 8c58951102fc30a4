/-!
Double-precision numbers as 64-bit words: their parts, their exact values, their order, and the
rounding of a quotient of natural numbers to the nearest of them.

A finite number has the magnitude `significand * 2 ^ exponent`. As words without the sign bit the
magnitudes are in their numeric order, so one comparison of integers orders them.
-/

namespace StackLisp

-- powers are those of the core library, whatever else is imported
attribute [local instance (2000)] instPowNat

structure Binary64 where
  bits : UInt64
  deriving DecidableEq, Repr, Inhabited

namespace Binary64

def magnitude (x : Binary64) : Nat := x.bits.toNat % 9223372036854775808

def negative (x : Binary64) : Bool := 9223372036854775808 ≤ x.bits.toNat

def infiniteMagnitude : Nat := 9218868437227405312

def isNaN (x : Binary64) : Bool := infiniteMagnitude < x.magnitude

def isInfinite (x : Binary64) : Bool := x.magnitude == infiniteMagnitude

def isFinite (x : Binary64) : Bool := x.magnitude < infiniteMagnitude

def isZero (x : Binary64) : Bool := x.magnitude == 0

def ofMagnitude (negative : Bool) (magnitude : Nat) : Binary64 :=
  ⟨UInt64.ofNat (if negative then 9223372036854775808 + magnitude else magnitude)⟩

def nan : Binary64 := ⟨9221120237041090560⟩

/-- The exponent field; zero marks the subnormal numbers. -/
def exponentField (magnitude : Nat) : Nat := magnitude / 4503599627370496

def significandOf (magnitude : Nat) : Nat :=
  if exponentField magnitude = 0 then magnitude
  else 4503599627370496 + magnitude % 4503599627370496

/-- How far the exponent lies above the least one, which is -1074. -/
def scaleOf (magnitude : Nat) : Nat := exponentField magnitude - 1

/-- The magnitude of a finite number in units of 2 ^ -1074. -/
def units (x : Binary64) : Nat := significandOf x.magnitude * 2 ^ scaleOf x.magnitude

/-- The quotient rounded to the nearest natural number, a half to the even neighbour. -/
def roundHalfEven (numerator denominator : Nat) : Nat :=
  let quotient := numerator / denominator
  let remainder := numerator % denominator
  if denominator < 2 * remainder ∨ (denominator = 2 * remainder ∧ quotient % 2 = 1) then
    quotient + 1
  else quotient

/-- The scale at which the quotient has 53 binary digits, or the least scale. -/
def scaleOfQuotient (numerator denominator : Nat) : Nat :=
  let scale := numerator.log2 + 1022 - denominator.log2
  if scale = 0 then 0
  else if numerator * 2 ^ (1022 : Nat) < denominator * 2 ^ scale then scale - 1
  else scale

/-- The magnitude nearest to a quotient. A significand that is rounded up to 2 ^ 53 carries into
the exponent field, which is what the next larger number is. -/
def nearestMagnitude (numerator denominator : Nat) : Nat :=
  if numerator = 0 then 0
  else
    let scale := scaleOfQuotient numerator denominator
    let rounded := roundHalfEven (numerator * 2 ^ (1074 : Nat)) (denominator * 2 ^ scale)
    min infiniteMagnitude (scale * 4503599627370496 + rounded)

def ofQuotient (negative : Bool) (numerator denominator : Nat) : Binary64 :=
  ofMagnitude negative (nearestMagnitude numerator denominator)

def ofInt (n : Int) : Binary64 := ofQuotient (n < 0) n.natAbs 1

/-- The place of a number in the numeric order; the two zeros share theirs. -/
def orderKey (x : Binary64) : Int :=
  if x.negative then -(Int.ofNat x.magnitude) else Int.ofNat x.magnitude

def compare? (x y : Binary64) : Option Ordering :=
  if x.isNaN || y.isNaN then none else some (compare x.orderKey y.orderKey)

def equal (x y : Binary64) : Bool := x.compare? y == some .eq

def lift (op : Float → Float → Float) (x y : Binary64) : Binary64 :=
  ⟨(op (Float.ofBits x.bits) (Float.ofBits y.bits)).toBits⟩

def add : Binary64 → Binary64 → Binary64 := lift (· + ·)

def sub : Binary64 → Binary64 → Binary64 := lift (· - ·)

def mul : Binary64 → Binary64 → Binary64 := lift (· * ·)

def div : Binary64 → Binary64 → Binary64 := lift (· / ·)

def pow : Binary64 → Binary64 → Binary64 := lift Float.pow

/-- The exact remainder of the division rounded toward zero; it has the sign of the dividend. -/
def rem (x y : Binary64) : Binary64 :=
  if x.isNaN || y.isNaN || x.isInfinite || y.isZero then nan
  else if y.isInfinite then x
  else ofQuotient x.negative (x.units % y.units) (2 ^ (1074 : Nat))

end Binary64

end StackLisp
