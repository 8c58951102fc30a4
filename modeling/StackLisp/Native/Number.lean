import StackLisp.Number.Word
import StackLisp.Store.Equality

/-!
Arithmetic and comparison of values. Integers stay integers and refuse to wrap; an integer beside a
float becomes a float; signed and unsigned integers do not mix.
-/

namespace StackLisp

namespace Value

def isNumber : Value → Bool
  | .int _ => true
  | .uint _ => true
  | .float _ => true
  | _ => false

def toFloat? : Value → Option Binary64
  | .int n => some (.ofInt n.toInt)
  | .uint n => some (.ofInt (Int.ofNat n.toNat))
  | .float x => some x
  | _ => none

end Value

/-- What an operator does to words, and to floats. -/
structure NumberOp where
  word : WordOp
  float : Binary64 → Binary64 → Binary64

namespace NumberOp

def add : NumberOp := ⟨.add, .add⟩

def sub : NumberOp := ⟨.sub, .sub⟩

def mul : NumberOp := ⟨.mul, .mul⟩

def div : NumberOp := ⟨.div, .div⟩

def rem : NumberOp := ⟨.rem, .rem⟩

end NumberOp

def notNumber (store : Store) (native what : String) (value : Value) : Error :=
  .type (.wrongArgument native what (store.kindOf value))

def wordResult {α : Type} (native : String) (wrap : α → Value) :
    Option α → Except Error Value
  | some word => .ok (wrap word)
  | none => .error (.runtime (.arithmetic native))

def calculate (store : Store) (native : String) (op : NumberOp) (left right : Value) :
    Except Error Value :=
  match left, right with
  | .int a, .int b => wordResult native .int (op.word.onInt64 a b)
  | .uint a, .uint b => wordResult native .uint (op.word.onUInt64 a b)
  | .float a, .float b => .ok (.float (op.float a b))
  | .int a, .float b => .ok (.float (op.float (.ofInt a.toInt) b))
  | .float a, .int b => .ok (.float (op.float a (.ofInt b.toInt)))
  | left, right =>
    .error (notNumber store native "a number" (if left.isNumber then right else left))

def calculateOn (store : Store) (native : String) (op : NumberOp) (result : Value) :
    List Value → Except Error Value
  | [] => .ok result
  | argument :: later => do
    calculateOn store native op (← calculate store native op result argument) later

/-- Calculates from the left; `neutral` is the result without arguments. -/
def calculateAll (store : Store) (native : String) (op : NumberOp) (neutral : Value)
    (arguments : List Value) : Except Error Value :=
  match arguments with
  | [] => .ok neutral
  | first :: later =>
    if first.isNumber then calculateOn store native op first later
    else .error (notNumber store native "a number" first)

/-- An integer to a natural power is an integer; all other powers are floats. -/
def power (store : Store) (native : String) (base exponent : Value) : Except Error Value :=
  let asFloats : Except Error Value :=
    match base.toFloat?, exponent.toFloat? with
    | some b, some e => .ok (.float (b.pow e))
    | some _, none => .error (notNumber store native "numbers" exponent)
    | none, _ => .error (notNumber store native "numbers" base)
  match base, exponent with
  | .int b, .int e => if 0 ≤ e then wordResult native .int (intPower? b e) else asFloats
  | _, _ => asFloats

/-- Equality by structure, but an integer is also equal to a float of its value. -/
def looselyEqual (store : Store) (left right : Value) : Bool :=
  match left, right with
  | .int n, .float x => (Binary64.ofInt n.toInt).equal x
  | .float x, .int n => x.equal (Binary64.ofInt n.toInt)
  | left, right => store.equal left right

def order (store : Store) (native : String) (left right : Value) : Except Error Ordering :=
  match left, right with
  | .int a, .int b => .ok (compare a.toInt b.toInt)
  | .uint a, .uint b => .ok (compare a.toNat b.toNat)
  | .text a, .text b => .ok (compare a b)
  | .char a, .char b => .ok (compare a.toNat b.toNat)
  | left, right =>
    match left.toFloat?, right.toFloat? with
    | some a, some b =>
      match a.compare? b with
      | some ordering => .ok ordering
      | none => .error (.runtime (.unordered native))
    | _, _ =>
      .error (.type (.notComparable native (store.kindOf left) (store.kindOf right)))

def compareBy (store : Store) (native : String) (holds : Ordering → Bool) (left right : Value) :
    Except Error Value :=
  (order store native left right).map fun ordering => .bool (holds ordering)

end StackLisp
