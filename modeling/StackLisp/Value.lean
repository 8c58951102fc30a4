import StackLisp.Datum
import StackLisp.Error

/-!
Values. Pairs never change, so their parts stand in the value, with a mark that tells one pair from
another; arrays, records, pointers and functions are known by their places in a store.
-/

namespace StackLisp

abbrev ArrayRef := Nat

abbrev RecordRef := Nat

abbrev PointerRef := Nat

abbrev FunctionRef := Nat

abbrev ScopeRef := Nat

inductive Value where
  | nil
  | endMark
  | int (n : Int64)
  | uint (n : UInt64)
  | float (x : Binary64)
  | char (c : Char)
  | bool (b : Bool)
  | text (s : String)
  | symbol (s : Symbol)
  | pair (mark : Nat) (head tail : Value)
  | array (ref : ArrayRef)
  | record (ref : RecordRef)
  | function (ref : FunctionRef)
  | pointer (ref : PointerRef)
  | reflect (mark : Nat)
  deriving DecidableEq, Repr, Inhabited

namespace Value

/-- False, nil, zero integers and the zero character count as false. -/
def isTruthy : Value → Bool
  | .bool b => b
  | .nil => false
  | .int n => n != 0
  | .uint n => n != 0
  | .char c => c != '\x00'
  | _ => true

def isList : Value → Bool
  | .nil => true
  | .pair _ _ _ => true
  | _ => false

/-- The elements along the tails of a value, and what ends them. -/
def spine : Value → List Value × Value
  | .pair _ head tail =>
    let (items, last) := tail.spine
    (head :: items, last)
  | last => ([], last)

/-- The elements of a proper list; nil is the empty one. -/
def items? (value : Value) : Option (List Value) :=
  match value.spine with
  | (items, .nil) => some items
  | _ => none

def symbol? : Value → Option Symbol
  | .symbol s => some s
  | _ => none

/-- The symbol of a keyword argument such as `name:`. -/
def keyword? : Value → Option Symbol
  | .symbol s => if s.colon then some s else none
  | _ => none

end Value

end StackLisp
