import StackLisp.Token
import StackLisp.Text.CharName
import StackLisp.Number.Decimal

/-!
The shapes of atoms, tried in a fixed order. The shapes overlap, so the order matters: `true` is
also a symbol, and `0b1` a malformed decimal but a binary numeral.
-/

namespace StackLisp

/-- A run of characters that ends in `ULL`, without that ending. -/
def stripUnsignedMark? (atom : List Char) : Option (List Char) :=
  match atom.reverse with
  | 'L' :: 'L' :: 'U' :: body => some body.reverse
  | _ => none

def isHexNumeral : List Char → Bool
  | '0' :: 'x' :: digits => isNumeral 16 digits
  | _ => false

def isOctalNumeral : List Char → Bool
  | '0' :: 'o' :: digits => isNumeral 8 digits
  | _ => false

def isBinaryNumeral : List Char → Bool
  | '0' :: 'b' :: digits => isNumeral 2 digits
  | _ => false

def isDecimalNumeral : List Char → Bool
  | '-' :: digits => isNumeral 10 digits
  | digits => isNumeral 10 digits

def isUnsignedNumeral (atom : List Char) : Bool :=
  match stripUnsignedMark? atom with
  | some body => isHexNumeral body || isOctalNumeral body || isNumeral 10 body
  | none => false

def isFloatNumeral (atom : List Char) : Bool := (Decimal.read? atom).isSome

/-- After `#`: one character, one to six hexadecimal digits after `u+`, or a name. -/
def isCharLiteral : List Char → Bool
  | ['#', c] => c != '\n'
  | '#' :: rest =>
    charNames.any (fun entry => entry.1.toList == rest) ||
      match rest with
      | 'u' :: '+' :: digits => isNumeral 16 digits && digits.length ≤ 6
      | _ => false
  | [] => false
  | _ :: _ => false

/-- The rest of a path after a dot, when the next character must start a name, and inside one. -/
def isPathAfter (nameStarts : Bool) : List Char → Bool
  | [] => !nameStarts
  | c :: rest =>
    if c = '.' then !nameStarts && isPathAfter true rest
    else !isBlank c && isPathAfter false rest

/-- Dots, each followed by a name. -/
def isPathAtom : List Char → Bool
  | '.' :: rest => isPathAfter true rest
  | _ => false

def isSigilAtom : List Char → Bool
  | '$' :: _ :: _ => true
  | '?' :: _ :: _ => true
  | '#' :: _ :: _ => true
  | _ => false

/-- A name does not start like a number or a character literal. A lone minus sign is a name, and
so is one that no digit and no `#` follows. -/
def isSymbolAtom : List Char → Bool
  | [] => false
  | ['-'] => true
  | '-' :: c :: rest => !isDecimalDigit c && c != '#' && !isBlank c && !rest.any isBlank
  | c :: rest => !isDecimalDigit c && c != '#' && !isBlank c && !rest.any isBlank

def classify (atom : List Char) : Option AtomKind :=
  if atom = ['t', 'r', 'u', 'e'] ∨ atom = ['f', 'a', 'l', 's', 'e'] then some .bool
  else if isUnsignedNumeral atom then some .uint
  else if isHexNumeral atom then some .hex
  else if isOctalNumeral atom then some .octal
  else if isBinaryNumeral atom then some .binary
  else if isDecimalNumeral atom then some .decimal
  else if isFloatNumeral atom then some .float
  else if isCharLiteral atom then some .char
  else if isPathAtom atom then some .path
  else if isSigilAtom atom then some .sigil
  else if isSymbolAtom atom then some .symbol
  else none

end StackLisp
