import StackLisp.OrderedMap
import StackLisp.Value

/-!
Records: ordered maps from keys to values, with a type name. A symbol is a key by its number, with
or without its colon.
-/

namespace StackLisp

inductive Key where
  | int (n : Int64)
  | uint (n : UInt64)
  | char (c : Char)
  | bool (b : Bool)
  | text (s : String)
  | symbol (s : Symbol)
  deriving Repr, Inhabited

namespace Key

def same : Key → Key → Bool
  | .int a, .int b => a == b
  | .uint a, .uint b => a == b
  | .char a, .char b => a == b
  | .bool a, .bool b => a == b
  | .text a, .text b => a == b
  | .symbol a, .symbol b => a.id == b.id
  | _, _ => false

instance : BEq Key := ⟨same⟩

/-- The kind of a key and its contents; of a symbol the number alone. -/
def hashCode : Key → UInt64
  | .int n => mixHash 0 n.toUInt64
  | .uint n => mixHash 1 n
  | .char c => mixHash 2 (UInt64.ofNat c.toNat)
  | .bool b => mixHash 3 (if b then 1 else 0)
  | .text s => mixHash 4 (hash s)
  | .symbol s => mixHash 5 (UInt64.ofNat s.id)

instance : Hashable Key := ⟨hashCode⟩

def ofValue? : Value → Option Key
  | .int n => some (.int n)
  | .uint n => some (.uint n)
  | .char c => some (.char c)
  | .bool b => some (.bool b)
  | .text s => some (.text s)
  | .symbol s => some (.symbol s.plain)
  | _ => none

def toValue : Key → Value
  | .int n => .int n
  | .uint n => .uint n
  | .char c => .char c
  | .bool b => .bool b
  | .text s => .text s
  | .symbol s => .symbol s

end Key

structure Record where
  typeName : String
  fields : OrderedMap Key Value

namespace Record

def empty (typeName : String) : Record := ⟨typeName, .empty⟩

instance : Inhabited Record := ⟨empty ""⟩

end Record

end StackLisp
