import StackLisp.Proofs.Reader.Whole

/-!
The grammar of data over tokens. A datum is an atom, a row of data in brackets, a list with a
backslash before its tail, or a mark and a datum. Comments and commas may stand anywhere and mean
nothing.

A derivation tree says which data some tokens make up. Its datum depends on the symbol table, and
the names in it enter the table in the order in which their tokens or their closing tokens stand.
-/

namespace StackLisp

inductive Bracket where
  | round
  | square
  | curly
  deriving DecidableEq

namespace Bracket

def opens : Bracket → TokenKind
  | .round => .openParen
  | .square => .openSquare
  | .curly => .openCurly

def closes : Bracket → TokenKind
  | .round => .closeParen
  | .square => .closeSquare
  | .curly => .closeCurly

end Bracket

inductive Mark where
  | quote
  | template
  | unquote
  | splice

namespace Mark

def kind : Mark → TokenKind
  | .quote => .quote
  | .template => .template
  | .unquote => .unquote
  | .splice => .splice

def head : Mark → String
  | .quote => "quote"
  | .template => "syntax-quote"
  | .unquote => "unquote"
  | .splice => "unquote-splicing"

end Mark

namespace TokenKind

def isAtom : TokenKind → Bool
  | .atom _ | .keyword | .text => true
  | _ => false

def isSkipped : TokenKind → Bool
  | .comment | .comma | .openComment => true
  | _ => false

end TokenKind

inductive Tree where
  | atom (token : Token)
  | row (bracket : Bracket) (items : List Tree)
  | dotted (items : List Tree) (last : Tree)
  | marked (mark : Mark) (body : Tree)

mutual

inductive Derives : Tree → List Token → Prop
  | atom {token : Token} : token.kind.isAtom = true → Derives (.atom token) [token]
  | row {bracket : Bracket} {items : List Tree} {opening closing : Token} {inner : List Token} :
      opening.kind = bracket.opens → DerivesAll items inner → closing.kind = bracket.closes →
      Derives (.row bracket items) (opening :: (inner ++ [closing]))
  | dotted {items : List Tree} {last : Tree} {opening back closing : Token}
      {inner final : List Token} :
      opening.kind = .openParen → items ≠ [] → DerivesAll items inner → back.kind = .backslash →
      Derives last final → closing.kind = .closeParen →
      Derives (.dotted items last) (opening :: (inner ++ back :: (final ++ [closing])))
  | marked {mark : Mark} {body : Tree} {token : Token} {inner : List Token} :
      token.kind = mark.kind → Derives body inner →
      Derives (.marked mark body) (token :: inner)

inductive DerivesAll : List Tree → List Token → Prop
  | nil : DerivesAll [] []
  | cons {tree : Tree} {trees : List Tree} {front rest : List Token} :
      Derives tree front → DerivesAll trees rest → DerivesAll (tree :: trees) (front ++ rest)

end

theorem DerivesAll.append {left right : List Tree} {front rest : List Token}
    (first : DerivesAll left front) (second : DerivesAll right rest) :
    DerivesAll (left ++ right) (front ++ rest) := by
  induction left generalizing front with
  | nil =>
      cases first
      exact second
  | cons tree trees ih =>
      cases first with
      | cons one all =>
          rw [List.cons_append, List.append_assoc]
          exact .cons one (ih all)

theorem DerivesAll.single {tree : Tree} {tokens : List Token} (derives : Derives tree tokens) :
    DerivesAll [tree] tokens := by
  simpa using DerivesAll.cons derives .nil

/-- Some further tokens make a datum of these, so they begin one without being one. -/
def Begins (part : List Token) : Prop :=
  ∃ tree rest, rest ≠ [] ∧ Derives tree (part ++ rest)

/-- The tokens that mean something: those outside of block comments that are neither line comments
nor commas. -/
def significant (open? : Bool) : List Token → List Token
  | [] => []
  | token :: later =>
    let rest := significant (commentBehind open? [.token token]) later
    if open? || token.kind.isSkipped then rest else token :: rest

def leavesComment (tokens : List Token) : Bool := commentBehind false (tokens.map .token)

structure Sentence (trees : List Tree) (tokens : List Token) : Prop where
  derives : DerivesAll trees (significant false tokens)
  closed : leavesComment tokens = false

/-- The tokens are a row of whole data with these derivations, and then the beginning of one more
datum, maybe without any token of it. -/
def Front (trees : List Tree) (part tokens : List Token) : Prop :=
  ∃ whole, significant false tokens = whole ++ part ∧ DerivesAll trees whole ∧ Begins part

def Unfinished (tokens : List Token) : Prop :=
  ∃ trees part, Front trees part tokens ∧ (part ≠ [] ∨ leavesComment tokens = true)

def Viable (tokens : List Token) : Prop := ∃ rest trees, Sentence trees (tokens ++ rest)

theorem significant_skip {open? : Bool} {token : Token} (later : List Token)
    (skipped : open? = true ∨ token.kind.isSkipped = true) :
    significant open? (token :: later) =
      significant (commentBehind open? [.token token]) later := by
  simp [significant, skipped]

theorem commentBehind_unskipped {token : Token} (unskipped : token.kind.isSkipped = false) :
    commentBehind false [.token token] = false := by
  have ordinary : token.kind ≠ .openComment := by
    intro opens
    rw [opens] at unskipped
    cases unskipped
  simp [commentBehind, ordinary]

theorem significant_keep {token : Token} (later : List Token)
    (unskipped : token.kind.isSkipped = false) :
    significant false (token :: later) = token :: significant false later := by
  simp [significant, unskipped, commentBehind_unskipped unskipped]

theorem significant_append (open? : Bool) (left right : List Token) :
    significant open? (left ++ right) =
      significant open? left ++
        significant (commentBehind open? (left.map .token)) right := by
  induction left generalizing open? with
  | nil => rfl
  | cons token later ih =>
      rw [List.cons_append, significant, significant, ih]
      split <;> rfl

theorem significant_of_unskipped {tokens : List Token}
    (unskipped : ∀ token ∈ tokens, token.kind.isSkipped = false) :
    significant false tokens = tokens ∧ leavesComment tokens = false := by
  induction tokens with
  | nil => exact ⟨rfl, rfl⟩
  | cons token later ih =>
      obtain ⟨same, closed⟩ := ih fun other member => unskipped other (by simp [member])
      have kept := unskipped token (by simp)
      refine ⟨by rw [significant_keep later kept, same], ?_⟩
      exact (congrArg (commentBehind · _) (commentBehind_unskipped kept)).trans closed

mutual

theorem Derives.unskipped {tree : Tree} {tokens : List Token} (derives : Derives tree tokens) :
    ∀ token ∈ tokens, token.kind.isSkipped = false := by
  cases derives with
  | atom isAtom =>
      intro token member
      rw [List.mem_singleton.mp member]
      unfold TokenKind.isAtom at isAtom
      split at isAtom <;> simp_all [TokenKind.isSkipped]
  | @row bracket items opening closing inner opens all closes =>
      intro token member
      simp only [List.mem_cons, List.mem_append, List.not_mem_nil, or_false] at member
      rcases member with rfl | member | rfl
      · rw [opens]
        cases bracket <;> rfl
      · exact all.unskipped token member
      · rw [closes]
        cases bracket <;> rfl
  | @dotted items last opening back closing inner final opens _ all isBack one closes =>
      intro token member
      simp only [List.mem_cons, List.mem_append, List.not_mem_nil, or_false] at member
      rcases member with rfl | member | rfl | member | rfl
      · rw [opens]
        rfl
      · exact all.unskipped token member
      · rw [isBack]
        rfl
      · exact one.unskipped token member
      · rw [closes]
        rfl
  | @marked mark body token inner marks one =>
      intro other member
      rcases List.mem_cons.mp member with rfl | member
      · rw [marks]
        cases mark <;> rfl
      · exact one.unskipped other member

theorem DerivesAll.unskipped {trees : List Tree} {tokens : List Token}
    (derives : DerivesAll trees tokens) : ∀ token ∈ tokens, token.kind.isSkipped = false := by
  cases derives with
  | nil => simp
  | cons one all =>
      intro token member
      rcases List.mem_append.mp member with front | rest
      · exact one.unskipped token front
      · exact all.unskipped token rest

end

/-! The datum of a derivation. -/

def Token.leaf (table : SymbolTable) (token : Token) : Datum × SymbolTable :=
  match token.kind with
  | .keyword =>
    let (symbol, table) := table.symbol token.text
    (.symbol symbol.withColon, table)
  | .atom kind =>
    match Parse.atomDatum table kind token.text with
    | (.ok datum, table) => (datum, table)
    | (.error _, table) => (.nil, table)
  | _ => (.text token.text, table)

def Bracket.enclose (table : SymbolTable) (items : List Datum) : Bracket → Datum × SymbolTable
  | .round => (.list items, table)
  | .square => (.array items, table)
  | .curly =>
    let (symbol, table) := table.symbol "infix"
    (.list [.symbol symbol, .array items], table)

def Mark.wrap (table : SymbolTable) (mark : Mark) (datum : Datum) : Datum × SymbolTable :=
  let (symbol, table) := table.symbol mark.head
  (.list [.symbol symbol, datum], table)

mutual

def Tree.read (table : SymbolTable) : Tree → Datum × SymbolTable
  | .atom token => token.leaf table
  | .row bracket items =>
    let (data, table) := readAll table items
    bracket.enclose table data
  | .dotted items last =>
    let (data, table) := readAll table items
    let (tail, table) := last.read table
    (.listWithTail data tail, table)
  | .marked mark body =>
    let (datum, table) := body.read table
    mark.wrap table datum

def readAll (table : SymbolTable) : List Tree → List Datum × SymbolTable
  | [] => ([], table)
  | tree :: later =>
    let (datum, table) := tree.read table
    let (data, table) := readAll table later
    (datum :: data, table)

end

theorem readAll_append (table : SymbolTable) (left right : List Tree) :
    readAll table (left ++ right) =
      ((readAll table left).1 ++ (readAll (readAll table left).2 right).1,
        (readAll (readAll table left).2 right).2) := by
  induction left generalizing table with
  | nil => rfl
  | cons tree later ih => simp [readAll, ih]

end StackLisp
