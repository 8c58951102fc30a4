import StackLisp.Proofs.Datum.Literal
import StackLisp.Proofs.Datum.Sketch

/-!
A reader accepts the grammar of data and nothing else. The parse of some tokens holds the data of
the trees that the sketch of the tokens holds, and it refuses a token where the sketch does.
-/

namespace StackLisp

def Bracket.form (items : List Datum) : Bracket → OpenForm
  | .round => .list items
  | .square => .array items
  | .curly => .curly items

def OpenTree.read (table : SymbolTable) : OpenTree → OpenForm × SymbolTable
  | .row bracket items =>
    let (data, table) := readAll table items.reverse
    (bracket.form data.reverse, table)
  | .tail items =>
    let (data, table) := readAll table items.reverse
    (.tail data.reverse, table)
  | .closing items last =>
    let (data, table) := readAll table items.reverse
    let (final, table) := last.read table
    (.closing data.reverse final, table)
  | .marked mark => (.wrap mark.head, table)

def readForms (table : SymbolTable) : List OpenTree → List OpenForm × SymbolTable
  | [] => ([], table)
  | form :: outer =>
    let (forms, table) := readForms table outer
    let (first, table) := form.read table
    (first :: forms, table)

namespace Sketch

def read (table : SymbolTable) (sketch : Sketch) : Parse × SymbolTable :=
  let (data, table) := readAll table sketch.done.reverse
  let (forms, table) := readForms table sketch.forms
  (⟨forms, false, data.reverse⟩, table)

def Agrees (table : SymbolTable) (result : Except ParseProblem Parse × SymbolTable) :
    Option Sketch → Prop
  | some next => result = (.ok (next.read table).1, (next.read table).2)
  | none => ∃ problem after, result = (.error problem, after)

theorem readAll_isEmpty (table : SymbolTable) (trees : List Tree) :
    (readAll table trees).1.isEmpty = trees.isEmpty := by
  cases trees <;> rfl

theorem readForms_isEmpty (table : SymbolTable) (forms : List OpenTree) :
    (readForms table forms).1.isEmpty = forms.isEmpty := by
  cases forms <;> rfl

section Agreement

variable (table : SymbolTable) {parse : Parse} {done : List Tree}

theorem finish_read (outside : parse.inComment = false)
    (finished : parse.finished = (readAll table done.reverse).1.reverse) (tree : Tree)
    {forms : List OpenTree} {late : List Token} (spell : AllSpell forms late)
    (awaiting : Awaiting forms) :
    let opened := readForms (readAll table done.reverse).2 forms
    let datum := tree.read opened.2
    parse.finish datum.2 datum.1 opened.1 = (finish done tree forms).read table := by
  induction spell generalizing tree with
  | nil =>
      simp [readForms, finish, read, Parse.finish, readAll_append, readAll, outside, finished]
  | @cons form outer front back spell outerAwaiting spells ih =>
      cases form with
      | marked mark => exact ih (.marked mark tree) outerAwaiting
      | row bracket items =>
          cases bracket <;>
            simp [readForms, OpenTree.read, Bracket.form, finish, read, Parse.finish,
              readAll_append, readAll, outside, finished]
      | tail items =>
          simp [readForms, OpenTree.read, finish, read, Parse.finish, outside, finished]
      | closing items last => cases awaiting

def Nested (sketch : Sketch) : Prop := ∃ late, AllSpell sketch.forms late

theorem complete_agrees {outer : List OpenTree} (nested : Nested ⟨outer, done⟩)
    (awaiting : Awaiting outer) (tree : Tree) (parse : Parse) (outside : parse.inComment = false)
    (finished : parse.finished = (readAll table done.reverse).1.reverse) :
    let opened := readForms (readAll table done.reverse).2 outer
    let datum := tree.read opened.2
    Agrees table (parse.complete datum.2 datum.1 opened.1) (some (finish done tree outer)) := by
  obtain ⟨late, spell⟩ := nested
  exact congrArg (fun result : Parse × SymbolTable => (Except.ok result.1, result.2))
    (finish_read table outside finished tree spell awaiting)

theorem begin_agrees {sketch : Sketch} (nested : sketch.Nested)
    (awaiting : Awaiting sketch.forms) {token : Token} (readable : token.Readable) :
    Agrees table ((sketch.read table).1.begin (sketch.read table).2 token)
      (sketch.begin token) := by
  have complete : Agrees table
      ((sketch.read table).1.complete (token.leaf (sketch.read table).2).2
        (token.leaf (sketch.read table).2).1 (sketch.read table).1.forms)
      (some (sketch.complete (.atom token))) :=
    complete_agrees table nested awaiting (.atom token) (sketch.read table).1 rfl rfl
  unfold Parse.begin begin
  cases kind : token.kind with
  | atom atomKind =>
      obtain ⟨datum, after, read⟩ := readable atomKind kind (sketch.read table).2
      have leaf : token.leaf (sketch.read table).2 = (datum, after) := by
        simp [Token.leaf, kind, read]
      simpa [read, leaf, opened?, TokenKind.isAtom] using complete
  | keyword => simpa [Token.leaf, kind, opened?, TokenKind.isAtom] using complete
  | text => simpa [Token.leaf, kind, opened?, TokenKind.isAtom] using complete
  | openParen => rfl
  | openSquare => rfl
  | openCurly => rfl
  | quote => rfl
  | template => rfl
  | unquote => rfl
  | splice => rfl
  | _ => exact ⟨_, _, rfl⟩

theorem skips?_of_unskipped {token : Token} (unskipped : token.kind.isSkipped = false)
    (sketch : Sketch) : (sketch.read table).1.skips? token = none := by
  have outside : (sketch.read table).1.inComment = false := rfl
  unfold Parse.skips?
  rw [outside]
  cases kind : token.kind <;> simp_all [TokenKind.isSkipped]

theorem step_agrees {sketch : Sketch} (nested : sketch.Nested) {token : Token}
    (readable : token.Readable) (unskipped : token.kind.isSkipped = false) :
    Agrees table ((sketch.read table).1.step (sketch.read table).2 token)
      (sketch.step token) := by
  rw [Parse.step, skips?_of_unskipped table unskipped]
  -- The innermost open form decides: a token ends it, or begins something inside of it.
  have begun (awaiting : Awaiting sketch.forms) := begin_agrees table nested awaiting readable
  obtain ⟨forms, done⟩ := sketch
  obtain ⟨late, spell⟩ := nested
  cases spell with
  | nil => exact begun trivial
  | @cons form outer front back spell outerAwaiting spells =>
      have outerNested : Nested ⟨outer, done⟩ := ⟨front, spell⟩
      have closed := complete_agrees table outerNested outerAwaiting
      cases form with
      | marked mark => exact begun trivial
      | tail items => exact begun trivial
      | closing items last =>
          simp only [step, Parse.meet, read, readForms, OpenTree.read]
          by_cases closes : token.kind = .closeParen
          · simp only [closes, ↓reduceIte, List.reverse_reverse]
            exact closed (.dotted items.reverse last) _ rfl rfl
          · simp only [closes, ↓reduceIte]
            exact ⟨_, _, rfl⟩
      | row bracket items =>
          have begins := begun trivial
          have closes := closed (.row bracket items.reverse)
            (read table ⟨.row bracket items :: outer, done⟩).1 rfl rfl
          cases bracket with
          | round =>
              simp only [step, Parse.meet, read, readForms, OpenTree.read, Bracket.form,
                Bracket.closes, List.isEmpty_reverse, readAll_isEmpty, List.reverse_reverse,
                true_and]
              by_cases isEnd : token.kind = .closeParen
              · simp only [isEnd, ↓reduceIte]
                exact closes
              by_cases isBack : token.kind = .backslash
              · by_cases none : items.isEmpty = true
                · simp only [isBack, none, ↓reduceIte, reduceCtorEq]
                  exact ⟨_, _, rfl⟩
                · simp only [isBack, none, ↓reduceIte, reduceCtorEq]
                  rfl
              · simp only [isEnd, isBack, ↓reduceIte]
                exact begins
          | square =>
              simp only [step, Parse.meet, read, readForms, OpenTree.read, Bracket.form,
                Bracket.closes, List.reverse_reverse, reduceCtorEq, false_and, ↓reduceIte]
              by_cases isEnd : token.kind = .closeSquare
              · simp only [isEnd, ↓reduceIte]
                exact closes
              · simp only [isEnd, ↓reduceIte]
                exact begins
          | curly =>
              simp only [step, Parse.meet, read, readForms, OpenTree.read, Bracket.form,
                Bracket.closes, List.reverse_reverse, reduceCtorEq, false_and, ↓reduceIte]
              by_cases isEnd : token.kind = .closeCurly
              · simp only [isEnd, ↓reduceIte]
                exact closes
              · simp only [isEnd, ↓reduceIte]
                exact begins

end Agreement

theorem Spells.nested {sketch : Sketch} {tokens : List Token} (spells : sketch.Spells tokens) :
    sketch.Nested := by
  obtain ⟨_, late, _, _, spell⟩ := spells
  exact ⟨late, spell⟩

theorem step_skipped {parse : Parse} (table : SymbolTable) {token : Token}
    (skipped : parse.inComment = true ∨ token.kind.isSkipped = true) :
    parse.step table token =
      (.ok { parse with inComment := commentBehind parse.inComment [.token token] }, table) := by
  obtain ⟨forms, inComment, finished⟩ := parse
  unfold Parse.step Parse.skips?
  cases inComment with
  | true => by_cases closes : token.kind = .closeComment <;> simp [closes, commentBehind]
  | false =>
      unfold TokenKind.isSkipped at skipped
      split at skipped <;> simp_all [commentBehind]

theorem through_significant (table : SymbolTable) {sketch next : Sketch}
    {met tokens : List Token} {open? : Bool}
    (spells : sketch.Spells met) (readable : ∀ token ∈ tokens, token.Readable)
    (ran : sketch.run (significant open? tokens) = some next) :
    Parse.through { (sketch.read table).1 with inComment := open? } (sketch.read table).2
        (tokens.map .token) =
      some ({ (next.read table).1 with inComment := commentBehind open? (tokens.map .token) },
        (next.read table).2) := by
  induction tokens generalizing sketch met open? with
  | nil =>
      cases ran
      rfl
  | cons token later ih =>
      have laterReadable : ∀ token ∈ later, token.Readable :=
        fun other member => readable other (by simp [member])
      rw [List.map_cons, Parse.through]
      by_cases skipped : open? = true ∨ token.kind.isSkipped = true
      · rw [significant_skip later skipped] at ran
        rw [step_skipped _ skipped]
        exact ih spells laterReadable ran
      · simp only [not_or, Bool.not_eq_true] at skipped
        obtain ⟨rfl, unskipped⟩ := skipped
        rw [significant_keep later unskipped, Sketch.run] at ran
        obtain ⟨middle, stepped, rest⟩ := Option.bind_eq_some_iff.mp ran
        have agrees := step_agrees table spells.nested (readable token (by simp)) unskipped
        rw [stepped] at agrees
        have same : { (sketch.read table).1 with inComment := false } = (sketch.read table).1 := rfl
        rw [same, agrees]
        refine (ih (step_spells spells stepped) laterReadable rest).trans ?_
        have outside : commentBehind false (.token token :: later.map .token) =
            commentBehind false (later.map .token) :=
          congrArg (commentBehind · _) (commentBehind_unskipped unskipped)
        rw [outside]

theorem refused_of_run {sketch : Sketch} {tokens : List Token} {open? : Bool}
    (ran : sketch.run (significant open? tokens) = none) :
    ∃ front token rest middle, tokens = front ++ token :: rest ∧
      sketch.run (significant open? front) = some middle ∧
      commentBehind open? (front.map .token) = false ∧ token.kind.isSkipped = false ∧
      middle.step token = none := by
  induction tokens generalizing sketch open? with
  | nil => cases ran
  | cons token later ih =>
      by_cases skipped : open? = true ∨ token.kind.isSkipped = true
      · rw [significant_skip later skipped] at ran
        obtain ⟨front, refused, rest, middle, rfl, reached, outside, unskipped, stops⟩ := ih ran
        refine ⟨token :: front, refused, rest, middle, rfl, ?_, outside, unskipped, stops⟩
        rw [significant_skip front skipped]
        exact reached
      · simp only [not_or, Bool.not_eq_true] at skipped
        obtain ⟨rfl, unskipped⟩ := skipped
        rw [significant_keep later unskipped, Sketch.run] at ran
        cases stepped : sketch.step token with
        | none => exact ⟨[], token, later, sketch, rfl, rfl, rfl, unskipped, stepped⟩
        | some next =>
            rw [stepped, Option.bind_some] at ran
            obtain ⟨front, refused, rest, middle, rfl, reached, outside, laterUnskipped, stops⟩ :=
              ih ran
            refine ⟨token :: front, refused, rest, middle, rfl, ?_, ?_, laterUnskipped, stops⟩
            · rw [significant_keep front unskipped, Sketch.run, stepped]
              exact reached
            · exact (congrArg (commentBehind · _) (commentBehind_unskipped unskipped)).trans outside

end Sketch

theorem significant_closed (open? : Bool) {rest : List Token}
    (unskipped : ∀ token ∈ rest, token.kind.isSkipped = false) :
    ∃ closing, significant open? (closing ++ rest) = rest ∧
      commentBehind open? ((closing ++ rest).map .token) = false := by
  obtain ⟨same, closed⟩ := significant_of_unskipped unskipped
  cases open? with
  | false => exact ⟨[], same, closed⟩
  | true =>
      have closes : commentBehind true [.token ⟨.closeComment, "", 0⟩] = false := rfl
      refine ⟨[⟨.closeComment, "", 0⟩], ?_, ?_⟩
      · rw [List.singleton_append, significant_skip rest (.inl rfl), closes, same]
      · exact (congrArg (commentBehind · _) closes).trans closed

/-- Data can be completed behind tokens just if no sketch refuses one of them. -/
theorem viable_iff (tokens : List Token) :
    Viable tokens ↔ ∃ sketch, Sketch.empty.run (significant false tokens) = some sketch := by
  constructor
  · rintro ⟨rest, trees, derives, _⟩
    have ran : Sketch.empty.run (significant false (tokens ++ rest)) = _ := derives.run_outside []
    rw [significant_append, Sketch.run_append] at ran
    obtain ⟨sketch, reached, _⟩ := Option.bind_eq_some_iff.mp ran
    exact ⟨sketch, reached⟩
  · rintro ⟨sketch, ran⟩
    obtain ⟨whole, part, cut, derives, ⟨tree, rest, _, next⟩, _⟩ := begins_of_run ran
    have unskipped : ∀ token ∈ rest, token.kind.isSkipped = false :=
      fun token member => next.unskipped token (by simp [member])
    obtain ⟨closing, same, closed⟩ := significant_closed (leavesComment tokens) unskipped
    refine ⟨closing ++ rest, sketch.done.reverse ++ [tree], ?_, ?_⟩
    · rw [significant_append]
      change DerivesAll _ (_ ++ significant (leavesComment tokens) _)
      rw [same, cut, List.append_assoc]
      exact derives.append (.single next)
    · rw [leavesComment, List.map_append, commentBehind_append]
      exact closed

theorem Front.unique {left right : List Tree} {part other tokens : List Token}
    (first : Front left part tokens) (second : Front right other tokens) : left = right := by
  obtain ⟨whole, cut, derives, begins⟩ := first
  obtain ⟨otherWhole, otherCut, otherDerives, otherBegins⟩ := second
  obtain ⟨forms, ran, _⟩ := run_of_begins derives begins
  obtain ⟨otherForms, otherRan, _⟩ := run_of_begins otherDerives otherBegins
  rw [← cut] at ran
  rw [← otherCut, ran] at otherRan
  simpa using (congrArg Sketch.done (Option.some.inj otherRan))

namespace Reader

theorem advance_append (reader : Reader) {table between : SymbolTable} {parse : Parse}
    {front : List Finding} (read : reader.parse.through table front = some (parse, between))
    (later : List Finding) :
    reader.advance table (front ++ later) = { reader with parse }.advance between later := by
  induction front generalizing reader table with
  | nil =>
      cases read
      rfl
  | cons finding front ih =>
      cases finding with
      | fault line problem => cases read
      | token token =>
          simp only [Parse.through] at read
          cases stepped : reader.parse.step table token with
          | mk outcome middle =>
              rw [stepped] at read
              cases outcome with
              | error problem => cases read
              | ok next =>
                  simp only [List.cons_append, advance, stepped]
                  exact ih { reader with parse := next } read

theorem collect_of_refused {table between after : SymbolTable} {text : String} {parse : Parse}
    {front rest : List Finding} {token : Token} {problem : ParseProblem}
    (found : (Scan.start.run text.toList).2 = front ++ .token token :: rest)
    (read : Parse.empty.through table front = some (parse, between))
    (refused : parse.step between token = (.error problem, after)) :
    (start.feed table text).1.collect.1 =
      (parse.finished.reverse, some (.parse token.line problem)) := by
  rw [feed_start, found, advance_append (opened text) read]
  simp [advance, refused, fail, reply, collect, opened, start, readBatch]

section Grammatical

/-- What a reader that has met nothing else tells of a text in which the tokens are found. -/
structure Grammatical (table : SymbolTable) (text : String) (tokens : List Token) : Prop where
  whole : ∀ trees, Sentence trees tokens →
    (start.feed table text).1.collect.1 = ((readAll table trees).1, none) ∧
      (start.feed table text).2 = (readAll table trees).2 ∧
      ∀ others, Sentence others tokens → others = trees
  unfinished : Unfinished tokens →
    (start.feed table text).1.collect.1 = ([], some (.signal .moreInputNeeded))
  refused : (∀ trees, ¬ Sentence trees tokens) → ¬ Unfinished tokens →
    ∃ front token rest trees part problem, tokens = front ++ token :: rest ∧
      Viable front ∧ ¬ Viable (front ++ [token]) ∧
      Front trees part front ∧ (∀ others other, Front others other front → others = trees) ∧
      (start.feed table text).1.collect.1 =
        ((readAll table trees).1, some (.parse token.line problem))

variable (table : SymbolTable) {text : String} {tokens : List Token}

theorem readable_of_lexed (lexed : (Scan.start.run text.toList).2 = tokens.map .token)
    (inRange : ∀ token ∈ tokens, token.InRange) : ∀ token ∈ tokens, token.Readable := by
  intro token member
  have sound := (Scan.run_outcome Scan.start_sound text.toList).2
  rw [lexed] at sound
  exact (sound (.token token) (List.mem_map_of_mem member)).readable (inRange token member)

theorem through_of_run (lexed : (Scan.start.run text.toList).2 = tokens.map .token)
    (readable : ∀ token ∈ tokens, token.Readable) {sketch : Sketch}
    (ran : Sketch.empty.run (significant false tokens) = some sketch) :
    Parse.empty.through table (Scan.start.run text.toList).2 =
      some ({ (sketch.read table).1 with inComment := leavesComment tokens },
        (sketch.read table).2) := by
  rw [lexed]
  exact Sketch.through_significant table Sketch.empty_spells readable ran

theorem feed_sentence (lexed : (Scan.start.run text.toList).2 = tokens.map .token)
    (readable : ∀ token ∈ tokens, token.Readable) {trees : List Tree}
    (sentence : Sentence trees tokens) :
    (start.feed table text).1.collect.1 = ((readAll table trees).1, none) ∧
      (start.feed table text).2 = (readAll table trees).2 ∧
      ∀ others, Sentence others tokens → others = trees := by
  obtain ⟨derives, closed⟩ := sentence
  have read := through_of_run table lexed readable (derives.run_outside [])
  have idle : Parse.isIdle { (Sketch.read table ⟨[], trees.reverse ++ []⟩).1 with
      inComment := leavesComment tokens } = true := by
    simp [Parse.isIdle, Sketch.read, readForms, closed]
  obtain ⟨told, after⟩ := collect_of_through text read idle
  refine ⟨?_, ?_, fun others other => other.derives.unique derives⟩
  · simpa [Sketch.read] using told
  · simpa [Sketch.read, readForms] using after

theorem feed_unfinished (lexed : (Scan.start.run text.toList).2 = tokens.map .token)
    (readable : ∀ token ∈ tokens, token.Readable) (unfinished : Unfinished tokens) :
    (start.feed table text).1.collect.1 = ([], some (.signal .moreInputNeeded)) := by
  obtain ⟨trees, part, ⟨whole, cut, derives, begins⟩, isOpen⟩ := unfinished
  obtain ⟨forms, ran, leavesOpen⟩ := run_of_begins derives begins
  rw [← cut] at ran
  have read := through_of_run table lexed readable ran
  have busy : Parse.isIdle { (Sketch.read table ⟨forms, trees.reverse⟩).1 with
      inComment := leavesComment tokens } = false := by
    simp only [Parse.isIdle, Sketch.read, Sketch.readForms_isEmpty]
    rcases isOpen with some | commented
    · simp [leavesOpen some]
    · simp [commented]
  exact collect_of_busy read busy

theorem sentence_or_unfinished {sketch : Sketch}
    (ran : Sketch.empty.run (significant false tokens) = some sketch) :
    (∃ trees, Sentence trees tokens) ∨ Unfinished tokens := by
  obtain ⟨whole, part, cut, derives, begins, _⟩ := begins_of_run ran
  have isFront : Front sketch.done.reverse part tokens := ⟨whole, cut, derives, begins⟩
  by_cases isOpen : part ≠ [] ∨ leavesComment tokens = true
  · exact .inr ⟨_, part, isFront, isOpen⟩
  · simp only [not_or, not_not, Bool.not_eq_true] at isOpen
    obtain ⟨rfl, closed⟩ := isOpen
    rw [List.append_nil] at cut
    exact .inl ⟨_, cut ▸ derives, closed⟩

theorem not_viable_of_stops {front : List Token} {token : Token} {middle : Sketch}
    (reached : Sketch.empty.run (significant false front) = some middle)
    (outside : commentBehind false (front.map .token) = false)
    (unskipped : token.kind.isSkipped = false)
    (stops : middle.step token = none) : ¬ Viable (front ++ [token]) := by
  rw [viable_iff]
  rintro ⟨sketch, onward⟩
  have cutOff : significant false (front ++ [token]) = significant false front ++ [token] := by
    rw [significant_append, outside, significant_keep [] unskipped]
    rfl
  rw [cutOff, Sketch.run_append, reached, Option.bind_some, Sketch.run_single, stops] at onward
  cases onward

theorem feed_refused (lexed : (Scan.start.run text.toList).2 = tokens.map .token)
    (readable : ∀ token ∈ tokens, token.Readable)
    (ran : Sketch.empty.run (significant false tokens) = none) :
    ∃ front token rest trees part problem, tokens = front ++ token :: rest ∧
      Viable front ∧ ¬ Viable (front ++ [token]) ∧
      Front trees part front ∧ (∀ others other, Front others other front → others = trees) ∧
      (start.feed table text).1.collect.1 =
        ((readAll table trees).1, some (.parse token.line problem)) := by
  obtain ⟨front, token, rest, middle, rfl, reached, outside, unskipped, stops⟩ :=
    Sketch.refused_of_run ran
  obtain ⟨whole, part, cut, derives, begins, _⟩ := begins_of_run reached
  have isFront : Front middle.done.reverse part front := ⟨whole, cut, derives, begins⟩
  have frontReadable : ∀ token ∈ front, token.Readable :=
    fun token member => readable token (by simp [member])
  have read := Sketch.through_significant table Sketch.empty_spells frontReadable reached
  have nested := (Sketch.run_spells Sketch.empty_spells reached).nested
  have agrees := Sketch.step_agrees table nested (readable token (by simp)) unskipped
  rw [stops] at agrees
  obtain ⟨problem, after, refused⟩ := agrees
  refine ⟨front, token, rest, middle.done.reverse, part, problem, rfl,
    (viable_iff front).mpr ⟨middle, reached⟩,
    not_viable_of_stops reached outside unskipped stops, isFront,
    fun others other isOther => isOther.unique isFront, ?_⟩
  rw [outside] at read
  rw [List.map_append] at lexed
  have told := collect_of_refused lexed (show Parse.empty.through table _ = _ from read) refused
  simpa [Sketch.read] using told

/-- A reader accepts the grammar of data and nothing else. -/
theorem feed_grammatical
    (lexed : (Scan.start.run text.toList).2 = tokens.map .token)
    (inRange : ∀ token ∈ tokens, token.InRange) : Grammatical table text tokens := by
  have readable := readable_of_lexed lexed inRange
  refine ⟨fun trees sentence => feed_sentence table lexed readable sentence,
    fun unfinished => feed_unfinished table lexed readable unfinished, fun noSentence finished => ?_⟩
  cases ran : Sketch.empty.run (significant false tokens) with
  | some sketch =>
      rcases sentence_or_unfinished ran with ⟨trees, sentence⟩ | unfinished
      · exact absurd sentence (noSentence trees)
      · exact absurd unfinished finished
  | none => exact feed_refused table lexed readable ran

theorem feed_grammatical_dotted :
    let text := "a (b /* , */ \\ %-7] d\n"
    let tokens : List Token :=
      [⟨.atom .symbol, "a", 1⟩, ⟨.openParen, "(", 1⟩, ⟨.atom .symbol, "b", 1⟩,
        ⟨.openComment, "/*", 1⟩, ⟨.comment, " , ", 1⟩, ⟨.closeComment, "*/", 1⟩,
        ⟨.backslash, "\\", 1⟩, ⟨.quote, "%", 1⟩, ⟨.atom .decimal, "-7", 1⟩,
        ⟨.closeSquare, "]", 1⟩, ⟨.atom .symbol, "d", 1⟩]
    (Scan.start.run text.toList).2 = tokens.map .token ∧ (∀ token ∈ tokens, token.InRange) ∧
      Grammatical .empty text tokens := by
  intro text tokens
  have lexed : (Scan.start.run text.toList).2 = tokens.map .token := by cbv
  have inRange : ∀ token ∈ tokens, token.InRange := by
    have value : decimalValue ['-', '7'] = -7 := by decide
    simp [tokens, Token.InRange, value]
  exact ⟨lexed, inRange, feed_grammatical .empty lexed inRange⟩

end Grammatical

end Reader

end StackLisp
