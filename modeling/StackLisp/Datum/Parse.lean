import StackLisp.Datum
import StackLisp.Symbol.Table
import StackLisp.Token.Scan
import StackLisp.Number.Word

/-!
Reading data token by token. A parse holds the forms that are open, innermost first, and the data
finished outside of them; each token moves it on or is refused. Nothing is ever read again, so a
parse may stop behind any token and go on when more of them have come.
-/

namespace StackLisp

/-- A form that waits for more tokens. Items are kept latest first. -/
inductive OpenForm where
  | list (items : List Datum)
  /-- behind the backslash of a dotted list -/
  | tail (items : List Datum)
  /-- behind the tail of a dotted list, where only the closing parenthesis may stand -/
  | closing (items : List Datum) (last : Datum)
  | array (items : List Datum)
  | curly (items : List Datum)
  | wrap (head : String)
  deriving Repr, Inhabited

structure Parse where
  forms : List OpenForm
  inComment : Bool
  /-- finished data, latest first -/
  finished : List Datum
  deriving Repr, Inhabited

namespace Parse

def empty : Parse := ⟨[], false, []⟩

def isIdle (parse : Parse) : Bool := parse.forms.isEmpty && !parse.inComment

/-- Adds a finished datum to the innermost open form. A form that it completes is finished in
turn; the head of such a form enters the symbol table behind its contents. -/
def finish (parse : Parse) (table : SymbolTable) (datum : Datum) :
    List OpenForm → Parse × SymbolTable
  | [] => ({ parse with forms := [], finished := datum :: parse.finished }, table)
  | .wrap head :: outer =>
    let (symbol, table) := table.symbol head
    finish parse table (.list [.symbol symbol, datum]) outer
  | .list items :: outer => ({ parse with forms := .list (datum :: items) :: outer }, table)
  | .tail items :: outer => ({ parse with forms := .closing items datum :: outer }, table)
  | .closing items last :: outer =>
    ({ parse with forms := .closing items last :: outer }, table)
  | .array items :: outer => ({ parse with forms := .array (datum :: items) :: outer }, table)
  | .curly items :: outer => ({ parse with forms := .curly (datum :: items) :: outer }, table)

def complete (parse : Parse) (table : SymbolTable) (datum : Datum) (outer : List OpenForm) :
    Except ParseProblem Parse × SymbolTable :=
  let (parse, table) := parse.finish table datum outer
  (.ok parse, table)

def enter (parse : Parse) (form : OpenForm) : Parse :=
  { parse with forms := form :: parse.forms }

def signedNumeral (base : Nat) (negative : Bool) (digits : List Char) : Option Int64 :=
  let value := Int.ofNat (numeralValue base digits)
  int64? (if negative then -value else value)

def unsignedNumeral (body : List Char) : Option UInt64 :=
  match body with
  | '0' :: 'x' :: digits => uint64? (Int.ofNat (numeralValue 16 digits))
  | '0' :: 'o' :: digits => uint64? (Int.ofNat (numeralValue 8 digits))
  | digits => uint64? (Int.ofNat (numeralValue 10 digits))

def atomDatum (table : SymbolTable) (kind : AtomKind) (text : String) :
    Except ParseProblem Datum × SymbolTable :=
  let chars := text.toList
  let number (read : Option Datum) : Except ParseProblem Datum × SymbolTable :=
    match read with
    | some datum => (.ok datum, table)
    | none => (.error (.numberOutOfRange text), table)
  let named : Except ParseProblem Datum × SymbolTable :=
    let (symbol, table) := table.symbol text
    (.ok (.symbol symbol), table)
  match kind with
  | .symbol => if text == "nil" then (.ok .nil, table) else named
  | .path => named
  | .sigil => named
  | .bool => (.ok (.bool (text == "true")), table)
  | .decimal =>
    match chars with
    | '-' :: digits => number ((signedNumeral 10 true digits).map .int)
    | digits => number ((signedNumeral 10 false digits).map .int)
  | .hex => number ((signedNumeral 16 false (chars.drop 2)).map .int)
  | .octal => number ((signedNumeral 8 false (chars.drop 2)).map .int)
  | .binary => number ((signedNumeral 2 false (chars.drop 2)).map .int)
  | .float => number ((Decimal.read? chars).map fun d => .float d.toBinary64)
  | .uint =>
    number (((stripUnsignedMark? chars).bind unsignedNumeral).map .uint)
  | .char =>
    match charOfLiteral? (String.ofList (chars.drop 1)) with
    | some c => (.ok (.char c), table)
    | none => (.error (.badChar text), table)

def begin (parse : Parse) (table : SymbolTable) (token : Token) :
    Except ParseProblem Parse × SymbolTable :=
  match token.kind with
  | .openParen => (.ok (parse.enter (.list [])), table)
  | .openSquare => (.ok (parse.enter (.array [])), table)
  | .openCurly => (.ok (parse.enter (.curly [])), table)
  | .quote => (.ok (parse.enter (.wrap "quote")), table)
  | .template => (.ok (parse.enter (.wrap "syntax-quote")), table)
  | .unquote => (.ok (parse.enter (.wrap "unquote")), table)
  | .splice => (.ok (parse.enter (.wrap "unquote-splicing")), table)
  | .atom kind =>
    match atomDatum table kind token.text with
    | (.ok datum, table) => parse.complete table datum parse.forms
    | (.error problem, table) => (.error problem, table)
  | .keyword =>
    let (symbol, table) := table.symbol token.text
    parse.complete table (.symbol symbol.withColon) parse.forms
  | .text => parse.complete table (.text token.text) parse.forms
  | _ => (.error (.unexpected token.text), table)

def skips? (parse : Parse) (token : Token) : Option Parse :=
  if parse.inComment then
    some (if token.kind = .closeComment then { parse with inComment := false } else parse)
  else
    match token.kind with
    | .comment => some parse
    | .comma => some parse
    | .openComment => some { parse with inComment := true }
    | _ => none

def meet (parse : Parse) (table : SymbolTable) (token : Token) :
    Except ParseProblem Parse × SymbolTable :=
  match parse.forms with
  | .list items :: outer =>
    if token.kind = .closeParen then parse.complete table (.list items.reverse) outer
    else if token.kind = .backslash then
      if items.isEmpty then (.error .pairWithoutHead, table)
      else (.ok { parse with forms := .tail items :: outer }, table)
    else parse.begin table token
  | .closing items last :: outer =>
    if token.kind = .closeParen then
      parse.complete table (.listWithTail items.reverse last) outer
    else (.error (.pairNotClosed token.text), table)
  | .array items :: outer =>
    if token.kind = .closeSquare then parse.complete table (.array items.reverse) outer
    else parse.begin table token
  | .curly items :: outer =>
    if token.kind = .closeCurly then
      let (symbol, table) := table.symbol "infix"
      parse.complete table (.list [.symbol symbol, .array items.reverse]) outer
    else parse.begin table token
  | _ => parse.begin table token

def step (parse : Parse) (table : SymbolTable) (token : Token) :
    Except ParseProblem Parse × SymbolTable :=
  match parse.skips? token with
  | some parse => (.ok parse, table)
  | none => parse.meet table token

/-- A token found instead of the parenthesis behind a dotted tail is refused without being read:
it may start the next datum. -/
def keepsRefused (parse : Parse) : Bool :=
  match parse.forms with
  | .closing _ _ :: _ => true
  | _ => false

/-- Leaves the open forms one by one, the innermost first, and with the last the comment. -/
def unwind (parse : Parse) : List OpenForm → Parse
  | [] => { parse with forms := [], inComment := false }
  | _ :: outer => unwind { parse with forms := outer } outer

end Parse

end StackLisp
