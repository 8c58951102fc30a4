/-!
Tokens. An atom is a run of characters between delimiters, sorted by its shape; the other tokens
are punctuation, text and comments.
-/

namespace StackLisp

inductive AtomKind where
  | symbol
  /-- a path such as `.a.b` -/
  | path
  | sigil
  | bool
  | decimal
  | hex
  | octal
  | binary
  | float
  | uint
  | char
  deriving DecidableEq, Repr, Inhabited

inductive TokenKind where
  | openParen
  | closeParen
  | openSquare
  | closeSquare
  | openCurly
  | closeCurly
  | quote
  | template
  | unquote
  | splice
  | backslash
  | comma
  | atom (kind : AtomKind)
  /-- a name written with a colon; the text of the token is the name alone -/
  | keyword
  | text
  | comment
  | openComment
  | closeComment
  deriving DecidableEq, Repr, Inhabited

structure Token where
  kind : TokenKind
  text : String
  /-- the line on which the token was complete -/
  line : Nat
  deriving DecidableEq, Repr, Inhabited

end StackLisp
