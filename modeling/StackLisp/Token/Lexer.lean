import StackLisp.Token.Scan

/-!
A lexer fed in chunks. It reads no further than it must to have one finding ready, so its line is
that of the text read so far.
-/

namespace StackLisp

structure Lexer where
  scan : Scan
  input : List Char
  /-- findings not handed out yet -/
  ready : List Finding
  deriving Repr, Inhabited

namespace Lexer

def empty : Lexer := ⟨.start, [], []⟩

/-- Forgets the text, half-read tokens and findings. -/
def reset (_ : Lexer) : Lexer := empty

def feed (lexer : Lexer) (chunk : String) : Lexer :=
  { lexer with input := lexer.input ++ chunk.toList }

def line (lexer : Lexer) : Nat := lexer.scan.line

/-- Reads up to the first character that yields a finding. -/
def readOn (scan : Scan) : List Char → Lexer
  | [] => ⟨scan, [], []⟩
  | c :: rest =>
    match scan.step c with
    | (next, []) => readOn next rest
    | (next, finding :: later) => ⟨next, rest, finding :: later⟩

def fill (lexer : Lexer) : Lexer :=
  match lexer.ready with
  | [] => readOn lexer.scan lexer.input
  | _ :: _ => lexer

def next (lexer : Lexer) : Option Finding × Lexer :=
  let lexer := lexer.fill
  match lexer.ready with
  | [] => (none, lexer)
  | finding :: later => (some finding, { lexer with ready := later })

/-- Like `next`, but a token stays. A fault is reported once, by whoever meets it first. -/
def peek (lexer : Lexer) : Option Finding × Lexer :=
  let lexer := lexer.fill
  match lexer.ready with
  | [] => (none, lexer)
  | .token token :: _ => (some (.token token), lexer)
  | .fault line problem :: later => (some (.fault line problem), { lexer with ready := later })

end Lexer

end StackLisp
