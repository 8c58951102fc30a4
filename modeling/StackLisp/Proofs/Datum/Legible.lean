import StackLisp.Proofs.Reader.Through
import StackLisp.Proofs.Symbol.Table
import StackLisp.Proofs.Token.Found

/-!
Data that can be written. Every datum that a parse of some text gives has symbols that are known to
the symbol table under their names and whose names are words that spell them.
-/

namespace StackLisp

inductive SymbolWord (name : String) : Prop
  | symbol : AtomWord name.toList .symbol → name ≠ "nil" → SymbolWord name
  | path : AtomWord name.toList .path → SymbolWord name
  | sigil : AtomWord name.toList .sigil → SymbolWord name

/-- A symbol that the table knows by its name, and that its text spells. -/
structure Symbol.Legible (table : SymbolTable) (symbol : Symbol) : Prop where
  known : table.idOf? symbol.name = some symbol.id
  spelled : if symbol.colon then KeywordName symbol.name.toList else SymbolWord symbol.name

inductive Datum.Legible (table : SymbolTable) : Datum → Prop
  | nil : Legible table .nil
  | int (n) : Legible table (.int n)
  | uint (n) : Legible table (.uint n)
  | float (x) : Legible table (.float x)
  | char (c) : Legible table (.char c)
  | bool (b) : Legible table (.bool b)
  | text (s) : Legible table (.text s)
  | symbol {s} : s.Legible table → Legible table (.symbol s)
  | pair {head tail} : Legible table head → Legible table tail → Legible table (.pair head tail)
  | array {items} : (∀ item ∈ items, Legible table item) → Legible table (.array items)

theorem Symbol.Legible.mono {table later : SymbolTable} {symbol : Symbol}
    (extends' : later.Extends table) (legible : symbol.Legible table) : symbol.Legible later :=
  ⟨extends' _ _ legible.known, legible.spelled⟩

theorem Datum.Legible.mono {table later : SymbolTable} {datum : Datum}
    (extends' : later.Extends table) (legible : datum.Legible table) : datum.Legible later := by
  induction legible with
  | symbol known => exact .symbol (known.mono extends')
  | pair _ _ head tail => exact .pair head tail
  | array _ items => exact .array items
  | _ => constructor

abbrev AllLegible (table : SymbolTable) (data : List Datum) : Prop :=
  ∀ datum ∈ data, datum.Legible table

theorem AllLegible.mono {table later : SymbolTable} {data : List Datum}
    (extends' : later.Extends table) (legible : AllLegible table data) : AllLegible later data :=
  fun datum member => (legible datum member).mono extends'

theorem AllLegible.cons {table : SymbolTable} {datum : Datum} {data : List Datum}
    (first : datum.Legible table) (legible : AllLegible table data) :
    AllLegible table (datum :: data) := by
  intro other member
  rcases List.mem_cons.mp member with rfl | later
  · exact first
  · exact legible other later

theorem AllLegible.reverse {table : SymbolTable} {data : List Datum}
    (legible : AllLegible table data) : AllLegible table data.reverse :=
  fun datum member => legible datum (List.mem_reverse.mp member)

theorem Datum.Legible.listWithTail {table : SymbolTable} {items : List Datum} {tail : Datum}
    (legible : AllLegible table items) (last : tail.Legible table) :
    (Datum.listWithTail items tail).Legible table := by
  induction items with
  | nil => exact last
  | cons item later ih =>
      exact .pair (legible item (by simp)) (ih fun datum member => legible datum (by simp [member]))

theorem Datum.Legible.list {table : SymbolTable} {items : List Datum}
    (legible : AllLegible table items) : (Datum.list items).Legible table :=
  .listWithTail legible .nil

theorem symbol_legible {table : SymbolTable} {name : String} (word : SymbolWord name) :
    (table.symbol name).1.Legible (table.symbol name).2 :=
  ⟨SymbolTable.idOf?_intern table name, word⟩

theorem keyword_legible {table : SymbolTable} {name : String} (named : KeywordName name.toList) :
    (table.symbol name).1.withColon.Legible (table.symbol name).2 :=
  ⟨SymbolTable.idOf?_intern table name, named⟩

namespace OpenForm

def Legible (table : SymbolTable) : OpenForm → Prop
  | .list items | .tail items | .array items | .curly items => AllLegible table items
  | .closing items last => AllLegible table items ∧ last.Legible table
  | .wrap head => SymbolWord head

theorem Legible.mono {table later : SymbolTable} {form : OpenForm}
    (extends' : later.Extends table) (legible : form.Legible table) : form.Legible later := by
  cases form with
  | closing items last => exact ⟨legible.1.mono extends', legible.2.mono extends'⟩
  | wrap head => exact legible
  | _ => exact AllLegible.mono extends' legible

end OpenForm

namespace Parse

structure Legible (table : SymbolTable) (parse : Parse) : Prop where
  forms : ∀ form ∈ parse.forms, form.Legible table
  finished : AllLegible table parse.finished

theorem legible_empty (table : SymbolTable) : empty.Legible table :=
  ⟨by simp [empty], by simp [empty, AllLegible]⟩

def Grows (table : SymbolTable) (result : Parse × SymbolTable) : Prop :=
  result.2.Extends table ∧ result.1.Legible result.2

theorem finish_grows {parse : Parse} {table : SymbolTable} {datum : Datum}
    {forms : List OpenForm} (finished : AllLegible table parse.finished)
    (legible : ∀ form ∈ forms, form.Legible table) (written : datum.Legible table) :
    Grows table (parse.finish table datum forms) := by
  induction forms generalizing table datum with
  | nil => exact ⟨.refl table, by simp [finish], finished.cons written⟩
  | cons form outer ih =>
      have inner : form.Legible table := legible form (by simp)
      have outside : ∀ form ∈ outer, form.Legible table :=
        fun other member => legible other (by simp [member])
      have replaced {form : OpenForm} (next : form.Legible table) :
          Grows table ({ parse with forms := form :: outer }, table) := by
        refine ⟨.refl table, ?_, finished⟩
        intro other member
        rcases List.mem_cons.mp member with rfl | later
        · exact next
        · exact outside other later
      cases form with
      | wrap head =>
          have extends' := SymbolTable.symbol_extends table head
          have items : AllLegible (table.symbol head).2
              [.symbol (table.symbol head).1, datum] :=
            .cons (.symbol (symbol_legible inner)) (.cons (written.mono extends') (by simp [AllLegible]))
          have grown := @ih (table.symbol head).2 _ (finished.mono extends')
            (fun other member => (outside other member).mono extends') (.list items)
          exact ⟨grown.1.trans extends', grown.2⟩
      | list items => exact replaced (AllLegible.cons written inner)
      | tail items => exact replaced ⟨inner, written⟩
      | closing items last => exact replaced inner
      | array items => exact replaced (AllLegible.cons written inner)
      | curly items => exact replaced (AllLegible.cons written inner)

def GrowsIfOk (table : SymbolTable) (result : Except ParseProblem Parse × SymbolTable) : Prop :=
  ∀ parse, result.1 = .ok parse → Grows table (parse, result.2)

theorem complete_grows {parse : Parse} {table : SymbolTable} {datum : Datum}
    {outer : List OpenForm} (finished : AllLegible table parse.finished)
    (legible : ∀ form ∈ outer, form.Legible table) (written : datum.Legible table) :
    GrowsIfOk table (parse.complete table datum outer) := by
  intro next eq
  cases eq
  exact finish_grows finished legible written

theorem enter_grows {parse : Parse} {table : SymbolTable} {form : OpenForm}
    (legible : parse.Legible table) (written : form.Legible table) :
    GrowsIfOk table (.ok (parse.enter form), table) := by
  intro next eq
  cases eq
  refine ⟨.refl table, ?_, legible.finished⟩
  intro other member
  rcases List.mem_cons.mp member with rfl | later
  · exact written
  · exact legible.forms other later

theorem refused_grows {table next : SymbolTable} {problem : ParseProblem} :
    GrowsIfOk table (.error problem, next) := by
  intro parse eq
  cases eq

theorem number_legible {table : SymbolTable} {option : Option Datum} {problem : ParseProblem}
    {datum : Datum} {result : Except ParseProblem Datum × SymbolTable}
    (eq : result = match option with
      | some datum => (.ok datum, table)
      | none => (.error problem, table))
    (plain : ∀ d, option = some d → d.Legible table) (ok : result.1 = .ok datum) :
    result.2.Extends table ∧ datum.Legible result.2 := by
  cases option with
  | none =>
      subst eq
      cases ok
  | some d =>
      subst eq
      cases ok
      exact ⟨.refl table, plain _ rfl⟩

theorem map_legible {α : Type} {table : SymbolTable} {make : α → Datum}
    (plain : ∀ x, (make x).Legible table) (option : Option α) :
    ∀ d, option.map make = some d → d.Legible table := by
  intro d found
  obtain ⟨x, _, rfl⟩ := Option.map_eq_some_iff.mp found
  exact plain x

theorem atomDatum_legible {table : SymbolTable} {kind : AtomKind} {text : String} {datum : Datum}
    (word : AtomWord text.toList kind) (read : (atomDatum table kind text).1 = .ok datum) :
    (atomDatum table kind text).2.Extends table ∧
      datum.Legible (atomDatum table kind text).2 := by
  cases kind with
  | symbol =>
      by_cases isNil : (text == "nil") = true
      · simp only [atomDatum, isNil, ↓reduceIte, Except.ok.injEq] at read ⊢
        subst read
        exact ⟨.refl table, .nil⟩
      · simp only [atomDatum, isNil] at read ⊢
        cases read
        exact ⟨SymbolTable.symbol_extends table text,
          .symbol (symbol_legible (.symbol word (by simpa using isNil)))⟩
  | path =>
      cases read
      exact ⟨SymbolTable.symbol_extends table text, .symbol (symbol_legible (.path word))⟩
  | sigil =>
      cases read
      exact ⟨SymbolTable.symbol_extends table text, .symbol (symbol_legible (.sigil word))⟩
  | bool =>
      cases read
      exact ⟨.refl table, .bool _⟩
  | decimal =>
      unfold atomDatum at read ⊢
      dsimp only at read ⊢
      revert read
      split
      next digits _ => exact number_legible rfl (map_legible .int _)
      next digits _ => exact number_legible rfl (map_legible .int _)
  | hex => exact number_legible rfl (map_legible .int _) read
  | octal => exact number_legible rfl (map_legible .int _) read
  | binary => exact number_legible rfl (map_legible .int _) read
  | float => exact number_legible rfl (map_legible (fun _ => .float _) _) read
  | uint => exact number_legible rfl (map_legible .uint _) read
  | char =>
      unfold atomDatum at read ⊢
      dsimp only at read ⊢
      revert read
      split
      next c _ =>
        intro read
        cases read
        exact ⟨.refl table, .char c⟩
      next =>
        intro read
        cases read

theorem symbolWord_of_classify {name : String} (atomic : isAtomic name.toList = true)
    (sorted : classify name.toList = some .symbol) (notNil : name ≠ "nil") : SymbolWord name :=
  .symbol (.plain atomic sorted) notNil

theorem symbolWord_heads : SymbolWord "quote" ∧ SymbolWord "syntax-quote" ∧
    SymbolWord "unquote" ∧ SymbolWord "unquote-splicing" ∧ SymbolWord "infix" :=
  ⟨symbolWord_of_classify (by cbv) (by cbv) (by decide),
    symbolWord_of_classify (by cbv) (by cbv) (by decide),
    symbolWord_of_classify (by cbv) (by cbv) (by decide),
    symbolWord_of_classify (by cbv) (by cbv) (by decide),
    symbolWord_of_classify (by cbv) (by cbv) (by decide)⟩

theorem begin_grows {parse : Parse} {table : SymbolTable} {token : Token}
    (legible : parse.Legible table) (sound : token.Sound) :
    GrowsIfOk table (parse.begin table token) := by
  obtain ⟨quote, template, unquote, splice, _⟩ := symbolWord_heads
  unfold begin
  split
  · exact enter_grows legible (by simp [OpenForm.Legible, AllLegible])
  · exact enter_grows legible (by simp [OpenForm.Legible, AllLegible])
  · exact enter_grows legible (by simp [OpenForm.Legible, AllLegible])
  · exact enter_grows legible quote
  · exact enter_grows legible template
  · exact enter_grows legible unquote
  · exact enter_grows legible splice
  next kind isAtom =>
    have word : AtomWord token.text.toList kind := by simpa [Token.Sound, isAtom] using sound
    cases read : atomDatum table kind token.text with
    | mk outcome next =>
        cases outcome with
        | error problem => exact refused_grows
        | ok datum =>
            obtain ⟨extends', written⟩ := atomDatum_legible word (by rw [read])
            rw [read] at extends' written
            intro parse' eq
            obtain ⟨more, holds⟩ := complete_grows (legible.finished.mono extends')
              (fun form member => (legible.forms form member).mono extends') written parse' eq
            exact ⟨more.trans extends', holds⟩
  next isKeyword =>
    have named : KeywordName token.text.toList := by simpa [Token.Sound, isKeyword] using sound
    have extends' := SymbolTable.symbol_extends table token.text
    intro parse' eq
    obtain ⟨more, holds⟩ := complete_grows (legible.finished.mono extends')
      (fun form member => (legible.forms form member).mono extends')
      (.symbol (keyword_legible named)) parse' eq
    exact ⟨more.trans extends', holds⟩
  · exact complete_grows legible.finished legible.forms (.text _)
  · exact refused_grows

theorem skips?_legible {parse next : Parse} {table : SymbolTable} {token : Token}
    (legible : parse.Legible table) (skipped : parse.skips? token = some next) :
    next.Legible table := by
  unfold skips? at skipped
  split at skipped
  · cases skipped
    split
    · exact ⟨legible.forms, legible.finished⟩
    · exact legible
  · split at skipped <;> cases skipped
    · exact legible
    · exact legible
    · exact ⟨legible.forms, legible.finished⟩

theorem meet_grows {parse : Parse} {table : SymbolTable} {token : Token}
    (legible : parse.Legible table) (sound : token.Sound) :
    GrowsIfOk table (parse.meet table token) := by
  have begins := begin_grows legible sound
  unfold meet
  split
  next items outer forms =>
    have inner : AllLegible table items := legible.forms (.list items) (by simp [forms])
    have outside : ∀ form ∈ outer, form.Legible table :=
      fun form member => legible.forms form (by simp [forms, member])
    split
    · exact complete_grows legible.finished outside (.list inner.reverse)
    split
    · split
      · exact refused_grows
      · intro next eq
        cases eq
        refine ⟨.refl table, ?_, legible.finished⟩
        intro form member
        rcases List.mem_cons.mp member with rfl | later
        · exact inner
        · exact outside form later
    · exact begins
  next items last outer forms =>
    have inner : AllLegible table items ∧ last.Legible table :=
      legible.forms (.closing items last) (by simp [forms])
    split
    · exact complete_grows legible.finished
        (fun form member => legible.forms form (by simp [forms, member]))
        (.listWithTail inner.1.reverse inner.2)
    · exact refused_grows
  next items outer forms =>
    have inner : AllLegible table items := legible.forms (.array items) (by simp [forms])
    split
    · exact complete_grows legible.finished
        (fun form member => legible.forms form (by simp [forms, member])) (.array inner.reverse)
    · exact begins
  next items outer forms =>
    have inner : AllLegible table items := legible.forms (.curly items) (by simp [forms])
    split
    · have extends' := SymbolTable.symbol_extends table "infix"
      obtain ⟨_, _, _, _, infixWord⟩ := symbolWord_heads
      intro next eq
      obtain ⟨more, holds⟩ := complete_grows (legible.finished.mono extends')
        (fun form member => (legible.forms form (by simp [forms, member])).mono extends')
        (.list (.cons (.symbol (symbol_legible infixWord))
          (.cons (.array (inner.reverse.mono extends')) (by simp [AllLegible])))) next eq
      exact ⟨more.trans extends', holds⟩
    · exact begins
  · exact begins

theorem step_grows {parse : Parse} {table : SymbolTable} {token : Token}
    (legible : parse.Legible table) (sound : token.Sound) :
    GrowsIfOk table (parse.step table token) := by
  unfold step
  split
  next skipped isSkipped =>
    intro next eq
    cases eq
    exact ⟨.refl table, skips?_legible legible isSkipped⟩
  · exact meet_grows legible sound

theorem through_grows {parse next : Parse} {table after : SymbolTable}
    {findings : List Finding} (legible : parse.Legible table)
    (sound : ∀ finding ∈ findings, finding.Sound)
    (read : parse.through table findings = some (next, after)) :
    Grows table (next, after) := by
  induction findings generalizing parse table with
  | nil =>
      cases read
      exact ⟨.refl _, legible⟩
  | cons finding later ih =>
      cases finding with
      | fault line problem => cases read
      | token token =>
          simp only [through] at read
          cases stepped : parse.step table token with
          | mk outcome between =>
              rw [stepped] at read
              cases outcome with
              | error problem => cases read
              | ok following =>
                  have grown := step_grows legible (sound (.token token) (by simp)) following
                    (by rw [stepped])
                  rw [stepped] at grown
                  obtain ⟨more, holds⟩ := ih grown.2
                    (fun other member => sound other (by simp [member])) read
                  exact ⟨more.trans grown.1, holds⟩

end Parse

end StackLisp
