/-!
Kinds of values, and when a value of one kind may stand where another is expected.
-/

namespace StackLisp

inductive Kind where
  | nil
  | endMark
  | list
  | array
  | int
  | uint
  | float
  | char
  | bool
  | text
  | symbol
  | function
  /-- a record with a type name; the empty name is that of an untyped record -/
  | record (name : String)
  | pointer (target : Kind)
  | reflect
  deriving DecidableEq, Repr, Inhabited

namespace Kind

def ofName? (name : String) : Option Kind :=
  match name with
  | "int" | "int64" => some .int
  | "uint64" => some .uint
  | "float" | "float64" => some .float
  | "char" => some .char
  | "bool" => some .bool
  | "string" => some .text
  | "symbol" => some .symbol
  | "list" => some .list
  | "array" => some .array
  | "hash" => some (.record "")
  | "fn" => some .function
  | _ => none

def name : Kind → String
  | .nil => "nil"
  | .endMark => "end"
  | .list => "list"
  | .array => "array"
  | .int => "int64"
  | .uint => "uint64"
  | .float => "float64"
  | .char => "char"
  | .bool => "bool"
  | .text => "string"
  | .symbol => "symbol"
  | .function => "fn"
  | .record name => if name.isEmpty then "hash" else name
  | .pointer target => "*" ++ target.name
  | .reflect => "reflect"

/-- An integer may stand for a float, nil for anything with parts, and any record for an untyped
one; otherwise the kinds must be equal. -/
def assignableTo (source target : Kind) : Bool :=
  source == target ||
    match source, target with
    | .int, .float => true
    | .nil, .list => true
    | .nil, .array => true
    | .nil, .record _ => true
    | .nil, .function => true
    | .nil, .pointer _ => true
    | .record _, .record name => name.isEmpty
    | _, _ => false

end Kind

end StackLisp
