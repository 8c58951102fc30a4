import StackLisp.Error
import StackLisp.Token.Atom
import StackLisp.Text.Quoted

/-!
Cutting text into tokens, one character at a time. The scan holds all that a character's meaning
depends on, so where the text is cut into chunks makes no difference.

A character yields at most two tokens, or one fault. After a fault the scan starts afresh behind
the character that showed it.
-/

namespace StackLisp

inductive ScanMode where
  | normal
  | text
  | escape
  | lineComment
  | blockComment
  | blockStar
  | raw
  /-- behind a colon that no atom precedes -/
  | colon
  /-- behind a slash that no atom precedes -/
  | slash
  | tilde
  | percent
  deriving DecidableEq, Repr, Inhabited

inductive Finding where
  | token (token : Token)
  | fault (line : Nat) (problem : LexProblem)
  deriving DecidableEq, Repr, Inhabited

structure Scan where
  mode : ScanMode
  /-- the characters of the token under way, latest first -/
  buffer : List Char
  line : Nat
  deriving DecidableEq, Repr, Inhabited

namespace Scan

def start : Scan := ⟨.normal, [], 1⟩

def isIdle (scan : Scan) : Bool := scan.mode == .normal && scan.buffer.isEmpty

def push (scan : Scan) (c : Char) : Scan := { scan with buffer := c :: scan.buffer }

def enter (scan : Scan) (mode : ScanMode) : Scan := { scan with mode }

def passed (scan : Scan) (c : Char) : Scan :=
  if c = '\n' then { scan with line := scan.line + 1 } else scan

def found (scan : Scan) (kind : TokenKind) (text : String) : Finding :=
  .token ⟨kind, text, scan.line⟩

def failed (scan : Scan) (problem : LexProblem) : Scan × List Finding :=
  ({ scan with mode := .normal, buffer := [] }, [.fault scan.line problem])

def close (scan : Scan) (kind : TokenKind) : Scan × List Finding :=
  ({ scan with mode := .normal, buffer := [] },
    [scan.found kind (String.ofList scan.buffer.reverse)])

def sortAtom (atom : List Char) : Except LexProblem (TokenKind × String) :=
  match classify atom with
  | some kind => .ok (.atom kind, String.ofList atom)
  | none => .error (.malformedAtom (String.ofList atom))

/-- Ends the atom under way, if any, and goes on; a malformed atom takes the delimiter with it. -/
def afterAtom (scan : Scan) (goOn : Scan → Scan × List Finding) : Scan × List Finding :=
  if scan.buffer.isEmpty then goOn scan
  else
    match sortAtom scan.buffer.reverse with
    | .ok (kind, text) =>
      let (next, findings) := goOn { scan with buffer := [] }
      (next, scan.found kind text :: findings)
    | .error problem => scan.failed problem

def closeKeyword (scan : Scan) : Scan × List Finding :=
  let name := scan.buffer.reverse
  if isSymbolAtom name then scan.close .keyword
  else scan.failed (.malformedKeyword (String.ofList (name ++ [':'])))

def punctuation? (c : Char) : Option TokenKind :=
  match c with
  | '(' => some .openParen
  | ')' => some .closeParen
  | '[' => some .openSquare
  | ']' => some .closeSquare
  | '\x7b' => some .openCurly
  | '\x7d' => some .closeCurly
  | ',' => some .comma
  | _ => none

/-- Characters that mean something only where no atom is under way. -/
def openingMark (scan : Scan) (c : Char) : Scan × List Finding :=
  match c with
  | '/' => (scan.enter .slash, [])
  | ':' => (scan.enter .colon, [])
  | '%' => (scan.enter .percent, [])
  | '~' => (scan.enter .tilde, [])
  | '\\' => (scan, [scan.found .backslash "\\"])
  | '^' => (scan, [scan.found .template "^"])
  | c => (scan.push c, [])

def ordinary (scan : Scan) (c : Char) : Scan × List Finding :=
  if c = '"' then scan.afterAtom fun scan => (scan.enter .text, [])
  else if c = '`' then scan.afterAtom fun scan => (scan.enter .raw, [])
  else if c = ';' then scan.afterAtom fun scan => (scan.enter .lineComment, [])
  else
    match punctuation? c with
    | some kind => scan.afterAtom fun scan => (scan, [scan.found kind (String.ofList [c])])
    | none =>
      if isBlank c then scan.afterAtom fun scan => (scan.passed c, [])
      else if scan.buffer.isEmpty then scan.openingMark c
      else if c = ':' then scan.closeKeyword
      else (scan.push c, [])

/-- Emits a token that needed one character of look-ahead, and reads that character. -/
def late (scan : Scan) (kind : TokenKind) (text : String) (c : Char) : Scan × List Finding :=
  let (next, findings) := (scan.enter .normal).ordinary c
  (next, scan.found kind text :: findings)

def step (scan : Scan) (c : Char) : Scan × List Finding :=
  match scan.mode with
  | .normal => scan.ordinary c
  | .text =>
    if c = '\\' then (scan.enter .escape, [])
    else if c = '"' then scan.close .text
    else ((scan.push c).passed c, [])
  | .escape =>
    match unescape? c with
    | some meant => ((scan.push meant).enter .text, [])
    | none => scan.failed (.unknownEscape c)
  | .raw => if c = '`' then scan.close .text else ((scan.push c).passed c, [])
  | .lineComment =>
    if c = '\n' then
      let (next, findings) := scan.close .comment
      (next.passed c, findings)
    else (scan.push c, [])
  | .blockComment =>
    if c = '*' then (scan.enter .blockStar, []) else ((scan.push c).passed c, [])
  | .blockStar =>
    if c = '/' then
      let (next, findings) := scan.close .comment
      (next, findings ++ [scan.found .closeComment "*/"])
    else if c = '*' then (scan.push '*', [])
    else ((((scan.push '*').push c).passed c).enter .blockComment, [])
  | .colon =>
    if c = '=' then (scan.enter .normal, [scan.found (.atom .symbol) ":="])
    else scan.late (.atom .symbol) ":" c
  | .slash =>
    if c = '/' then (scan.enter .lineComment, [])
    else if c = '*' then (scan.enter .blockComment, [scan.found .openComment "/*"])
    else ((scan.push '/').enter .normal).ordinary c
  | .tilde =>
    if c = '@' then (scan.enter .normal, [scan.found .splice "~@"])
    else scan.late .unquote "~" c
  | .percent =>
    if isBlank c || c == ')' || c == ']' || c == '\x7d' then
      ((scan.push '%').enter .normal).ordinary c
    else scan.late .quote "%" c

def run (scan : Scan) : List Char → Scan × List Finding
  | [] => (scan, [])
  | c :: rest =>
    let (next, findings) := scan.step c
    let (last, later) := next.run rest
    (last, findings ++ later)

end Scan

end StackLisp
