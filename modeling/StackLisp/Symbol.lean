/-!
Symbols. A symbol is known by its number in the symbol table; two symbols are the same when their
numbers are, and when both or neither are written with a colon.
-/

namespace StackLisp

/-- What the first character of a name makes of a symbol. -/
inductive SymbolShape where
  | plain
  /-- a path such as `.a.b` through the fields of records -/
  | path
  | sigil
  deriving DecidableEq, Repr, Inhabited

/-- The mark must be followed by something. -/
def shapeOf : List Char → SymbolShape
  | '.' :: _ :: _ => .path
  | '$' :: _ :: _ => .sigil
  | '?' :: _ :: _ => .sigil
  | '#' :: _ :: _ => .sigil
  | _ => .plain

structure Symbol where
  name : String
  id : Nat
  /-- written `name:`, as a keyword -/
  colon : Bool
  deriving DecidableEq, Repr, Inhabited

namespace Symbol

def shape (symbol : Symbol) : SymbolShape := shapeOf symbol.name.toList

def isPath (symbol : Symbol) : Bool := symbol.shape == .path

def isSigil (symbol : Symbol) : Bool := symbol.shape == .sigil

def withColon (symbol : Symbol) : Symbol := { symbol with colon := true }

def plain (symbol : Symbol) : Symbol := { symbol with colon := false }

/-- The names of two symbols play no part. -/
def same (left right : Symbol) : Bool := left.id == right.id && left.colon == right.colon

def text (symbol : Symbol) : String := if symbol.colon then symbol.name ++ ":" else symbol.name

end Symbol

/-- The nonempty parts of a text between dots; `part` holds the part under way, latest first. -/
def pathPartsFrom (part : List Char) : List Char → List (List Char)
  | [] => if part.isEmpty then [] else [part.reverse]
  | '.' :: rest =>
    if part.isEmpty then pathPartsFrom [] rest else part.reverse :: pathPartsFrom [] rest
  | c :: rest => pathPartsFrom (c :: part) rest

def pathParts (path : String) : List String := (pathPartsFrom [] path.toList).map String.ofList

end StackLisp
