/-!
Double-quoted text. Six characters are written with a backslash; every other character stands
for itself.
-/

namespace StackLisp

/-- The letter after the backslash, for a character that needs one. -/
def escapeLetter? (c : Char) : Option Char :=
  match c with
  | '"' => some '"'
  | '\\' => some '\\'
  | '\n' => some 'n'
  | '\t' => some 't'
  | '\r' => some 'r'
  | '\x00' => some '0'
  | _ => none

def unescape? (letter : Char) : Option Char :=
  match letter with
  | 'n' => some '\n'
  | 't' => some '\t'
  | 'r' => some '\r'
  | '0' => some '\x00'
  | '"' => some '"'
  | '\\' => some '\\'
  | _ => none

def escaped : List Char → List Char
  | [] => []
  | c :: rest =>
    match escapeLetter? c with
    | some letter => '\\' :: letter :: escaped rest
    | none => c :: escaped rest

def quotedText (text : String) : String :=
  String.ofList ('"' :: (escaped text.toList ++ ['"']))

theorem unescape?_of_escapeLetter? {c letter : Char} (escape : escapeLetter? c = some letter) :
    unescape? letter = some c := by
  unfold escapeLetter? at escape
  split at escape <;> cases escape <;> rfl

end StackLisp
