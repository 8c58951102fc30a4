import StackLisp.Datum

/-!
Finite trees of what is to be printed, and their text. Data and values are printed by way of their
outlines: an outline has no identity and no cycles, only words and brackets.
-/

namespace StackLisp

inductive Outline where
  | nil
  | leaf (word : String)
  /-- stands for something that encloses it -/
  | elided (word : String)
  | pair (head tail : Outline)
  | array (items : List Outline)
  /-- a word and what follows it, in parentheses -/
  | form (word : String) (items : List Outline)
  deriving Repr, Inhabited

namespace Outline

/-- Text in the tail of a list stands behind a backslash and closes the list. -/
def inTail (tail : Bool) (body : List Char → List Char) (rest : List Char) : List Char :=
  if tail then ' ' :: '\\' :: ' ' :: body (')' :: rest) else body rest

mutual

/-- The text of an outline in front of further text; `tail` tells whether the outline is the tail
of a list whose parenthesis is open. -/
def charsBefore (tail : Bool) : Outline → List Char → List Char
  | .nil, rest => if tail then ')' :: rest else 'n' :: 'i' :: 'l' :: rest
  | .leaf word, rest => inTail tail (fun rest => word.toList ++ rest) rest
  | .elided word, rest => inTail tail (fun rest => word.toList ++ rest) rest
  | .pair first others, rest =>
    (if tail then ' ' else '(') :: charsBefore false first (charsBefore true others rest)
  | .array items, rest =>
    inTail tail (fun rest => '[' :: itemsBefore false items (']' :: rest)) rest
  | .form word items, rest =>
    inTail tail (fun rest => '(' :: (word.toList ++ itemsBefore true items (')' :: rest))) rest

/-- Items with a blank between them, and in front of the first one if `spaced`. -/
def itemsBefore (spaced : Bool) : List Outline → List Char → List Char
  | [], rest => rest
  | item :: later, rest =>
    let chars := charsBefore false item (itemsBefore true later rest)
    if spaced then ' ' :: chars else chars

end

def text (outline : Outline) : String := String.ofList (charsBefore false outline [])

end Outline

def intWord (n : Int64) : String := signedText n.toInt

def uintWord (n : UInt64) : String := decimalText n.toNat ++ "ULL"

def boolWord (b : Bool) : String := if b then "true" else "false"

namespace Datum

mutual

def outline : Datum → Outline
  | .nil => .nil
  | .int n => .leaf (intWord n)
  | .uint n => .leaf (uintWord n)
  | .float x => .leaf x.text
  | .char c => .leaf (charText c)
  | .bool b => .leaf (boolWord b)
  | .text s => .leaf (quotedText s)
  | .symbol s => .leaf s.text
  | .pair head tail => .pair head.outline tail.outline
  | .array items => .array (outlines items)

def outlines : List Datum → List Outline
  | [] => []
  | item :: later => item.outline :: outlines later

end

def toText (datum : Datum) : String := datum.outline.text

end Datum

end StackLisp
