/-!
Arithmetic on 64-bit integers that refuses to wrap. An operation gives the exact integer result
when that fits in the word, and nothing otherwise.
-/

namespace StackLisp

-- powers are those of the core library, whatever else is imported
attribute [local instance (2000)] instPowNat

def int64? (n : Int) : Option Int64 :=
  if -9223372036854775808 ≤ n ∧ n ≤ 9223372036854775807 then some (Int64.ofInt n) else none

def uint64? (n : Int) : Option UInt64 :=
  if 0 ≤ n ∧ n ≤ 18446744073709551615 then some (UInt64.ofNat n.toNat) else none

/-- The number that a word stands for when it is taken as signed. -/
def signedWord (word : Nat) : Int := Int.bmod word (2 ^ (64 : Nat))

/-- An operation on the exact values of two words. -/
structure WordOp where
  exact : Int → Int → Option Int

namespace WordOp

def add : WordOp := ⟨fun a b => some (a + b)⟩

def sub : WordOp := ⟨fun a b => some (a - b)⟩

def mul : WordOp := ⟨fun a b => some (a * b)⟩

def div : WordOp := ⟨fun a b => if b = 0 then none else some (a.tdiv b)⟩

/-- The remainder with the sign of the dividend, refused also where the quotient does not fit in
a signed word. -/
def rem : WordOp :=
  ⟨fun a b => if b = 0 ∨ (a = -9223372036854775808 ∧ b = -1) then none else some (a.tmod b)⟩

def onInt64 (op : WordOp) (a b : Int64) : Option Int64 :=
  (op.exact a.toInt b.toInt).bind int64?

def onUInt64 (op : WordOp) (a b : UInt64) : Option UInt64 :=
  (op.exact (Int.ofNat a.toNat) (Int.ofNat b.toNat)).bind uint64?

end WordOp

/-- A power with an exponent of at most 32 bits. A base other than -1, 0 and 1 leaves the word
before the exponent reaches 64, so larger exponents need no multiplication. -/
def intPower? (base exponent : Int64) : Option Int64 :=
  let b := base.toInt
  let e := exponent.toInt.toNat
  if e ≥ 4294967296 then none
  else if b = 0 ∨ b = 1 then int64? (b ^ min e 1)
  else if b = -1 then int64? (b ^ (e % 2))
  else if e < 64 then int64? (b ^ e)
  else none

end StackLisp
