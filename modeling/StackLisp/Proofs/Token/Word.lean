import Mathlib
import StackLisp.Token.Scan

/-!
Words and the tokens that they spell. A word spells a token if a scan between tokens that runs over
the word and meets a closing character behind it finds that token, and goes on with the closing
character as if the word had not been there.
-/

namespace StackLisp

def isAtomChar (c : Char) : Bool :=
  !(c == '"' || c == '`' || c == ';' || c == ':' || (Scan.punctuation? c).isSome || isBlank c)

def opensAtom : List Char → Bool
  | [] => false
  | '/' :: c :: _ => c != '/' && c != '*'
  | c :: _ => !(c == '%' || c == '~' || c == '\\' || c == '^')

/-- A run of characters that is read as one atom. -/
def isAtomic (word : List Char) : Bool := opensAtom word && word.all isAtomChar

inductive AtomWord : List Char → AtomKind → Prop
  | colon : AtomWord [':'] .symbol
  | assign : AtomWord [':', '='] .symbol
  | percent : AtomWord ['%'] .symbol
  | plain {word kind} : isAtomic word = true → classify word = some kind → AtomWord word kind

structure KeywordName (name : List Char) : Prop where
  atomic : isAtomic name = true
  symbol : isSymbolAtom name = true

def isCloser (c : Char) : Bool := c == ' ' || c == ')' || c == ']' || c == '\n'

namespace Scan

def idleAt (line : Nat) : Scan := ⟨.normal, [], line⟩

/-- What is found in a word and some text behind it, by what is found in that text. -/
def Spells (word : List Char) (kind : TokenKind) (text : String) : Prop :=
  ∀ line c rest, isCloser c = true →
    (idleAt line).run (word ++ c :: rest) =
      (((idleAt line).run (c :: rest)).1,
        .token ⟨kind, text, line⟩ :: ((idleAt line).run (c :: rest)).2)

theorem isCloser_cases {c : Char} (closer : isCloser c = true) :
    c = ' ' ∨ c = ')' ∨ c = ']' ∨ c = '\n' := by
  simpa [isCloser, or_assoc] using closer

theorem ordinary_push {buffer : List Char} {line : Nat} {c : Char} (nonempty : buffer ≠ [])
    (inAtom : isAtomChar c = true) :
    ordinary ⟨.normal, buffer, line⟩ c = (⟨.normal, c :: buffer, line⟩, []) := by
  simp only [isAtomChar, Bool.not_eq_true', Bool.or_eq_false_iff, beq_eq_false_iff_ne,
    Option.isSome_eq_false_iff, Option.isNone_iff_eq_none] at inAtom
  obtain ⟨⟨⟨⟨⟨noQuote, noBacktick⟩, noSemicolon⟩, noColon⟩, noPunctuation⟩, noBlank⟩ := inAtom
  simp [ordinary, noQuote, noBacktick, noSemicolon, noColon, noPunctuation, noBlank, nonempty,
    push]

theorem run_of_step {scan next : Scan} {c : Char} {findings : List Finding}
    (stepped : scan.step c = (next, findings)) (rest : List Char) :
    scan.run (c :: rest) = ((next.run rest).1, findings ++ (next.run rest).2) := by
  simp [run, stepped]

theorem run_of_silent {scan next : Scan} {c : Char} (stepped : scan.step c = (next, []))
    (rest : List Char) : scan.run (c :: rest) = next.run rest := by
  simp [run, stepped]

theorem step_push {buffer : List Char} {line : Nat} {c : Char} (nonempty : buffer ≠ [])
    (inAtom : isAtomChar c = true) :
    step ⟨.normal, buffer, line⟩ c = (⟨.normal, c :: buffer, line⟩, []) :=
  ordinary_push nonempty inAtom

theorem run_push {buffer word : List Char} {line : Nat} (nonempty : buffer ≠ [])
    (inAtom : word.all isAtomChar = true) (rest : List Char) :
    run ⟨.normal, buffer, line⟩ (word ++ rest) =
      run ⟨.normal, word.reverse ++ buffer, line⟩ rest := by
  induction word generalizing buffer with
  | nil => rfl
  | cons c later ih =>
      rw [List.all_cons, Bool.and_eq_true] at inAtom
      rw [List.cons_append, run_of_silent (step_push nonempty inAtom.1),
        ih (by simp) inAtom.2]
      simp

theorem step_slash (line : Nat) : step (idleAt line) '/' = (⟨.slash, [], line⟩, []) := by
  simp [step, idleAt, ordinary, openingMark, enter, punctuation?, isBlank]

theorem step_behind_slash {c : Char} (noComment : c ≠ '/' ∧ c ≠ '*') (line : Nat) :
    step ⟨.slash, [], line⟩ c = ordinary ⟨.normal, ['/'], line⟩ c := by
  simp [step, noComment, push, enter]

theorem step_opening {c : Char} (inAtom : isAtomChar c = true)
    (noMark : c ≠ '/' ∧ c ≠ '%' ∧ c ≠ '~' ∧ c ≠ '\\' ∧ c ≠ '^') (line : Nat) :
    step (idleAt line) c = (⟨.normal, [c], line⟩, []) := by
  simp only [isAtomChar, Bool.not_eq_true', Bool.or_eq_false_iff, beq_eq_false_iff_ne,
    Option.isSome_eq_false_iff, Option.isNone_iff_eq_none] at inAtom
  obtain ⟨⟨⟨⟨⟨noQuote, noBacktick⟩, noSemicolon⟩, _⟩, noPunctuation⟩, noBlank⟩ := inAtom
  simp [step, idleAt, ordinary, noQuote, noBacktick, noSemicolon, noPunctuation, noBlank,
    openingMark, noMark, push]

/-- An atomic word ends up in the buffer, if what stands behind it makes no comment of it. -/
theorem run_atomic {word : List Char} (atomic : isAtomic word = true) (line : Nat) {c : Char}
    (noComment : c ≠ '/' ∧ c ≠ '*') (rest : List Char) :
    (idleAt line).run (word ++ c :: rest) = run ⟨.normal, word.reverse, line⟩ (c :: rest) := by
  rw [isAtomic, Bool.and_eq_true] at atomic
  obtain ⟨opens, inAtom⟩ := atomic
  cases word with
  | nil => simp [opensAtom] at opens
  | cons first later =>
      rw [List.all_cons, Bool.and_eq_true] at inAtom
      by_cases slash : first = '/'
      · subst slash
        rw [List.cons_append, run_of_silent (step_slash line)]
        cases later with
        | nil =>
            rw [List.nil_append, run, run, step_behind_slash noComment]
            rfl
        | cons next others =>
            simp only [opensAtom, Bool.and_eq_true, bne_iff_ne] at opens
            rw [List.all_cons, Bool.and_eq_true] at inAtom
            have second : step ⟨.slash, [], line⟩ next = (⟨.normal, [next, '/'], line⟩, []) := by
              rw [step_behind_slash opens, ordinary_push (by simp) inAtom.2.1]
            rw [List.cons_append, run_of_silent second, run_push (by simp) inAtom.2.2]
            simp
      · have noMark : first ≠ '%' ∧ first ≠ '~' ∧ first ≠ '\\' ∧ first ≠ '^' := by
          simpa [opensAtom, slash, and_assoc] using opens
        rw [List.cons_append, run_of_silent (step_opening inAtom.1 ⟨slash, noMark⟩ line),
          run_push (by simp) inAtom.2]
        simp

theorem ordinary_closer (buffer : List Char) {line : Nat} {c : Char} {kind : TokenKind}
    {text : String} (closer : isCloser c = true) (nonempty : buffer ≠ [])
    (sorted : sortAtom buffer.reverse = .ok (kind, text)) :
    ordinary ⟨.normal, buffer, line⟩ c =
      ((ordinary (idleAt line) c).1, .token ⟨kind, text, line⟩ :: (ordinary (idleAt line) c).2) := by
  rcases isCloser_cases closer with rfl | rfl | rfl | rfl <;>
    simp [ordinary, afterAtom, nonempty, sorted, idleAt, punctuation?, isBlank, found, passed]

theorem step_closer (buffer : List Char) {line : Nat} {c : Char} {kind : TokenKind}
    {text : String} (closer : isCloser c = true) (nonempty : buffer ≠ [])
    (sorted : sortAtom buffer.reverse = .ok (kind, text)) :
    step ⟨.normal, buffer, line⟩ c =
      ((step (idleAt line) c).1, .token ⟨kind, text, line⟩ :: (step (idleAt line) c).2) :=
  ordinary_closer buffer closer nonempty sorted

theorem run_closer {buffer : List Char} {line : Nat} {c : Char} {kind : TokenKind}
    {text : String} (closer : isCloser c = true) (nonempty : buffer ≠ [])
    (sorted : sortAtom buffer.reverse = .ok (kind, text)) (rest : List Char) :
    run ⟨.normal, buffer, line⟩ (c :: rest) =
      (((idleAt line).run (c :: rest)).1,
        .token ⟨kind, text, line⟩ :: ((idleAt line).run (c :: rest)).2) := by
  rw [run_of_step (step_closer buffer closer nonempty sorted)]
  rfl

theorem spells_plain {word : List Char} {kind : AtomKind} (atomic : isAtomic word = true)
    (sorted : classify word = some kind) :
    Spells word (.atom kind) (String.ofList word) := by
  intro line c rest closer
  have noComment : c ≠ '/' ∧ c ≠ '*' := by
    rcases isCloser_cases closer with rfl | rfl | rfl | rfl <;> decide
  have nonempty : word ≠ [] := by
    rintro rfl
    simp [isAtomic, opensAtom] at atomic
  rw [run_atomic atomic line noComment]
  exact run_closer closer (by simpa using nonempty) (by simp [sortAtom, sorted]) rest

theorem step_colon (line : Nat) : step (idleAt line) ':' = (⟨.colon, [], line⟩, []) := by
  simp [step, idleAt, ordinary, openingMark, enter, punctuation?, isBlank]

theorem spells_colon : Spells [':'] (.atom .symbol) ":" := by
  intro line c rest closer
  have noAssign : c ≠ '=' := by
    rcases isCloser_cases closer with rfl | rfl | rfl | rfl <;> decide
  have behind : step ⟨.colon, [], line⟩ c = ((step (idleAt line) c).1,
      .token ⟨.atom .symbol, ":", line⟩ :: (step (idleAt line) c).2) := by
    simp [step, noAssign, late, enter, idleAt, found]
  rw [List.cons_append, List.nil_append, run_of_silent (step_colon line), run_of_step behind]
  rfl

theorem spells_assign : Spells [':', '='] (.atom .symbol) ":=" := by
  intro line c rest _
  have behind : step ⟨.colon, [], line⟩ '=' =
      (idleAt line, [.token ⟨.atom .symbol, ":=", line⟩]) := by
    simp [step, enter, idleAt, found]
  rw [List.cons_append, List.cons_append, List.nil_append, run_of_silent (step_colon line),
    run_of_step behind]
  rfl

theorem spells_percent : Spells ['%'] (.atom .symbol) "%" := by
  intro line c rest closer
  have opening : step (idleAt line) '%' = (⟨.percent, [], line⟩, []) := by
    simp [step, idleAt, ordinary, openingMark, enter, punctuation?, isBlank]
  have sorted : sortAtom ['%'] = .ok (.atom .symbol, "%") := by cbv
  have behind : step ⟨.percent, [], line⟩ c = ((step (idleAt line) c).1,
      .token ⟨.atom .symbol, "%", line⟩ :: (step (idleAt line) c).2) := by
    rw [← step_closer ['%'] closer (by simp) sorted]
    rcases isCloser_cases closer with rfl | rfl | rfl | rfl <;>
      simp [step, push, enter, isBlank]
  rw [List.cons_append, List.nil_append, run_of_silent opening, run_of_step behind]
  rfl

theorem spells_atom {word : List Char} {kind : AtomKind} (spelled : AtomWord word kind) :
    Spells word (.atom kind) (String.ofList word) := by
  cases spelled with
  | colon => exact spells_colon
  | assign => exact spells_assign
  | percent => exact spells_percent
  | plain atomic sorted => exact spells_plain atomic sorted

theorem spells_keyword {name : List Char} (named : KeywordName name) :
    Spells (name ++ [':']) .keyword (String.ofList name) := by
  intro line c rest _
  have nonempty : name ≠ [] := by
    rintro rfl
    exact absurd named.symbol (by decide)
  have closes : step ⟨.normal, name.reverse, line⟩ ':' =
      (idleAt line, [.token ⟨.keyword, String.ofList name, line⟩]) := by
    simp [step, ordinary, punctuation?, isBlank, nonempty, closeKeyword, named.symbol, close,
      found, idleAt]
  rw [List.append_assoc, List.singleton_append, run_atomic named.atomic line (by decide),
    run_of_step closes]
  rfl

/-! Text between quotes. -/

theorem run_escaped (buffer : List Char) (line : Nat) (body rest : List Char) :
    run ⟨.text, buffer, line⟩ (escaped body ++ rest) =
      run ⟨.text, body.reverse ++ buffer, line⟩ rest := by
  induction body generalizing buffer with
  | nil => rfl
  | cons c later ih =>
      rw [escaped]
      split
      next letter escape =>
        have back : step ⟨.escape, buffer, line⟩ letter = (⟨.text, c :: buffer, line⟩, []) := by
          simp [step, unescape?_of_escapeLetter? escape, push, enter]
        have mark : step ⟨.text, buffer, line⟩ '\\' = (⟨.escape, buffer, line⟩, []) := by
          simp [step, enter]
        rw [List.cons_append, List.cons_append, run_of_silent mark, run_of_silent back, ih]
        simp
      next plain =>
        have ordinaryChar : c ≠ '"' ∧ c ≠ '\\' ∧ c ≠ '\n' := by
          refine ⟨?_, ?_, ?_⟩ <;>
            · rintro rfl
              simp [escapeLetter?] at plain
        have pushed : step ⟨.text, buffer, line⟩ c = (⟨.text, c :: buffer, line⟩, []) := by
          simp [step, ordinaryChar, push, passed]
        rw [List.cons_append, run_of_silent pushed, ih]
        simp

theorem spells_text (body : String) : Spells (quotedText body).toList .text body := by
  intro line c rest _
  have opening : step (idleAt line) '"' = (⟨.text, [], line⟩, []) := by
    simp [step, idleAt, ordinary, afterAtom, enter]
  have closing : step ⟨.text, body.toList.reverse, line⟩ '"' =
      (idleAt line, [.token ⟨.text, body, line⟩]) := by
    simp [step, close, found, idleAt]
  rw [quotedText, String.toList_ofList, List.cons_append, run_of_silent opening,
    List.append_assoc, run_escaped, List.append_nil, List.singleton_append,
    run_of_step closing]
  rfl

end Scan

end StackLisp
