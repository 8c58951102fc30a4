import StackLisp.Text.Blank
import StackLisp.Text.Numeral

/-!
Character literals. After `#` stands a name, `u+` and hexadecimal digits, or the character itself.
The names are for characters that would end the literal or be taken for something else.
-/

namespace StackLisp

def charNames : List (String × Char) :=
  [("newline", '\n'), ("space", ' '), ("tab", '\t'), ("return", '\r'),
   ("lparen", '('), ("rparen", ')'), ("lsquare", '['), ("rsquare", ']'),
   ("lcurly", '\x7b'), ("rcurly", '\x7d'), ("dquote", '"'), ("backtick", '`'),
   ("semicolon", ';'), ("comma", ','), ("colon", ':')]

def scalar? (code : Nat) : Option Char :=
  if code.isValidChar then some (Char.ofNat code) else none

/-- The digits of a code point may follow one plus sign. -/
def codePoint? : List Char → Option Char
  | '+' :: digits => (readNumeral? 16 digits).bind scalar?
  | digits => (readNumeral? 16 digits).bind scalar?

def charOfLiteral? (text : String) : Option Char :=
  match charNames.find? (fun entry => entry.1 == text) with
  | some (_, c) => some c
  | none =>
    match text.toList with
    | [c] => some c
    | 'u' :: '+' :: digits => codePoint? digits
    | _ => none

/-- Four hexadecimal digits, or more where the code point needs them. -/
def codePointText (code : Nat) : String :=
  let digits := numeral 16 code
  String.ofList (List.replicate (4 - digits.length) '0' ++ digits)

/-- What to write after `#` when the character itself would not read back. -/
def charName? (c : Char) : Option String :=
  match charNames.find? (fun entry => entry.2 == c) with
  | some (name, _) => some name
  | none => if isBlank c || isControl c then some ("u+" ++ codePointText c.toNat) else none

def charText (c : Char) : String :=
  match charName? c with
  | some name => "#" ++ name
  | none => String.ofList ['#', c]

end StackLisp
