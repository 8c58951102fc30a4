import StackLisp.Proofs.Token.Chunks
import StackLisp.Proofs.Token.Found

/-!
Lines. A lexer counts the newlines of the text that it has read, each of them once, wherever they stand:
between tokens, in text, or in comments. Two kinds of newlines are read without being counted, since the
fault that they show is reported first: one that ends a malformed atom, and one behind a backslash in
double-quoted text.
-/

namespace StackLisp

def Finding.line : Finding → Nat
  | .token read => read.line
  | .fault line _ => line

namespace Scan

def malformed (buffer : List Char) : Bool := !buffer.isEmpty && (classify buffer.reverse).isNone

/-- Whether a character is a newline that is not counted. -/
def drops (scan : Scan) (c : Char) : Bool :=
  c == '\n' && match scan.mode with
    | .normal => malformed scan.buffer
    | .escape => true
    | _ => false

def dropped (scan : Scan) : List Char → Nat
  | [] => 0
  | c :: rest => (scan.drops c).toNat + (scan.step c).1.dropped rest

structure Advances (line : Nat) (c : Char) (drops : Bool) (result : Scan × List Finding) : Prop where
  counted : result.1.line + drops.toNat = line + [c].count '\n'
  found : ∀ finding ∈ result.2, finding.line = line

theorem passed_line (scan : Scan) (c : Char) : (scan.passed c).line = scan.line + [c].count '\n' := by
  by_cases newline : c = '\n'
  · simp [passed, newline]
  · simp [passed, newline]

theorem advances_silent {line : Nat} {c : Char} {scan : Scan}
    (reads : scan.line = line + [c].count '\n') : Advances line c false (scan, []) :=
  ⟨by simpa using reads, by simp⟩

theorem Advances.cons {line : Nat} {c : Char} {drops : Bool} {scan : Scan} {findings : List Finding}
    (advances : Advances line c drops (scan, findings)) {finding : Finding} (here : finding.line = line) :
    Advances line c drops (scan, finding :: findings) :=
  ⟨advances.counted, List.forall_mem_cons.mpr ⟨here, advances.found⟩⟩

theorem advances_passed (scan : Scan) (c : Char) : Advances scan.line c false (scan.passed c, []) :=
  advances_silent (passed_line scan c)

theorem count_of_ne {c : Char} (other : c ≠ '\n') : [c].count '\n' = 0 := by simp [other]

theorem advances_stay {scan next : Scan} {c : Char} (other : c ≠ '\n') (same : next.line = scan.line) :
    Advances scan.line c false (next, []) :=
  advances_silent (by rw [same, count_of_ne other, Nat.add_zero])

theorem advances_found {scan next : Scan} {c : Char} {finding : Finding} (other : c ≠ '\n')
    (same : next.line = scan.line) (here : finding.line = scan.line) :
    Advances scan.line c false (next, [finding]) := (advances_stay other same).cons here

theorem failed_advances (scan : Scan) (problem : LexProblem) (c : Char) :
    Advances scan.line c (c == '\n') (scan.failed problem) := by
  refine ⟨?_, by simp [failed, Finding.line]⟩
  by_cases newline : c = '\n' <;> simp [failed, newline]

theorem close_advances {scan : Scan} {c : Char} (other : c ≠ '\n') (kind : TokenKind) :
    Advances scan.line c false (scan.close kind) := advances_found other rfl rfl

theorem afterAtom_advances {scan : Scan} {c : Char} {goOn : Scan → Scan × List Finding}
    (continues : ∀ next : Scan, next.line = scan.line → Advances scan.line c false (goOn next)) :
    Advances scan.line c (c == '\n' && malformed scan.buffer) (scan.afterAtom goOn) := by
  unfold afterAtom
  split
  next empty =>
    have sound : malformed scan.buffer = false := by simp [malformed, empty]
    simpa [sound] using continues scan rfl
  next nonempty =>
    split
    next kind text sorted =>
      have sound : malformed scan.buffer = false := by
        unfold sortAtom at sorted
        split at sorted
        next classified => simp [malformed, classified]
        next => cases sorted
      simpa [sound] using (continues { scan with buffer := [] } rfl).cons rfl
    next problem sorted =>
      have spoilt : malformed scan.buffer = true := by
        unfold sortAtom at sorted
        split at sorted
        next => cases sorted
        next unclassified => simpa [malformed, unclassified] using nonempty
      simpa [spoilt] using failed_advances scan problem c

theorem openingMark_advances {scan : Scan} {c : Char} (other : c ≠ '\n') :
    Advances scan.line c false (scan.openingMark c) := by
  unfold openingMark
  split
  · exact advances_stay other rfl
  · exact advances_stay other rfl
  · exact advances_stay other rfl
  · exact advances_stay other rfl
  · exact advances_found other rfl rfl
  · exact advances_found other rfl rfl
  · exact advances_stay other rfl

theorem ordinary_advances (scan : Scan) (c : Char) :
    Advances scan.line c (c == '\n' && malformed scan.buffer) (scan.ordinary c) := by
  have stays (other : c ≠ '\n') {next : Scan} {mode : ScanMode} (same : next.line = scan.line) :
      Advances scan.line c false (next.enter mode, []) := advances_stay other same
  unfold ordinary
  split
  next quote => exact afterAtom_advances fun next same => stays (by rw [quote]; decide) same
  split
  next backtick => exact afterAtom_advances fun next same => stays (by rw [backtick]; decide) same
  split
  next semicolon => exact afterAtom_advances fun next same => stays (by rw [semicolon]; decide) same
  split
  next kind punctuated =>
    have other : c ≠ '\n' := by
      rintro rfl
      cases punctuated
    exact afterAtom_advances fun next same => (advances_stay other same).cons same
  split
  next blank =>
    refine afterAtom_advances fun next same => ?_
    rw [← same]
    exact advances_passed next c
  next notBlank =>
    have other : c ≠ '\n' := by
      rintro rfl
      exact notBlank rfl
    have counted : (c == '\n' && malformed scan.buffer) = false := by simp [other]
    rw [counted]
    split
    · exact openingMark_advances other
    split
    · unfold closeKeyword
      dsimp only
      split
      · exact close_advances other _
      · have failed := failed_advances scan
          (.malformedKeyword (String.ofList (scan.buffer.reverse ++ [':']))) c
        rwa [beq_false_of_ne other] at failed
    · exact advances_stay other rfl

theorem late_advances {scan : Scan} {c : Char} (empty : scan.buffer = []) (kind : TokenKind)
    (text : String) : Advances scan.line c false (scan.late kind text c) := by
  have ordinary := ordinary_advances (scan.enter .normal) c
  have sound : malformed (scan.enter .normal).buffer = false := by simp [enter, malformed, empty]
  rw [sound, Bool.and_false] at ordinary
  exact ordinary.cons rfl

theorem mark_advances {scan : Scan} {c mark : Char} (empty : scan.buffer = [])
    (isName : malformed [mark] = false) :
    Advances scan.line c false (((scan.push mark).enter .normal).ordinary c) := by
  have ordinary := ordinary_advances ((scan.push mark).enter .normal) c
  have sound : malformed ((scan.push mark).enter .normal).buffer = false := by
    simp [enter, push, empty, isName]
  rw [sound, Bool.and_false] at ordinary
  exact ordinary

theorem step_advances {scan : Scan} (sound : scan.Sound) (c : Char) :
    Advances scan.line c (scan.drops c) (scan.step c) := by
  have pushed : Advances scan.line c false ((scan.push c).passed c, []) := advances_passed (scan.push c) c
  cases mode : scan.mode with
  | normal =>
      rw [step, drops, mode]
      exact ordinary_advances scan c
  | text =>
      simp only [step, drops, mode, Bool.and_false]
      split
      next backslash => exact advances_stay (by rw [backslash]; decide) rfl
      split
      next quote => exact close_advances (by rw [quote]; decide) _
      · exact pushed
  | escape =>
      simp only [step, drops, mode, Bool.and_true]
      split
      next meant escaped =>
        have other : c ≠ '\n' := by
          rintro rfl
          cases escaped
        rw [beq_false_of_ne other]
        exact advances_stay other rfl
      · exact failed_advances scan _ c
  | raw =>
      simp only [step, drops, mode, Bool.and_false]
      split
      next backtick => exact close_advances (by rw [backtick]; decide) _
      · exact pushed
  | lineComment =>
      simp only [step, drops, mode, Bool.and_false]
      split
      next newline =>
        exact ⟨passed_line _ c, fun finding member => by rw [List.mem_singleton.mp member]; rfl⟩
      next other => exact advances_stay other rfl
  | blockComment =>
      simp only [step, drops, mode, Bool.and_false]
      split
      next star => exact advances_stay (by rw [star]; decide) rfl
      · exact pushed
  | blockStar =>
      simp only [step, drops, mode, Bool.and_false]
      split
      next slash =>
        have other : c ≠ '\n' := by rw [slash]; decide
        refine ⟨by simp [close, count_of_ne other], fun finding member => ?_⟩
        rcases List.mem_append.mp member with first | last
        · rw [List.mem_singleton.mp first]
          rfl
        · rw [List.mem_singleton.mp last]
          rfl
      split
      next star => exact advances_stay (by rw [star]; decide) rfl
      · exact advances_silent (passed_line ((scan.push '*').push c) c)
  | colon =>
      simp only [Sound, mode] at sound
      simp only [step, drops, mode, Bool.and_false]
      split
      next equals =>
        have other : c ≠ '\n' := by rw [equals]; decide
        exact advances_found other rfl rfl
      · exact late_advances sound _ _
  | slash =>
      simp only [Sound, mode] at sound
      simp only [step, drops, mode, Bool.and_false]
      split
      next slash => exact advances_stay (by rw [slash]; decide) rfl
      split
      next star =>
        have other : c ≠ '\n' := by rw [star]; decide
        exact advances_found other rfl rfl
      · exact mark_advances sound (by decide +kernel)
  | tilde =>
      simp only [Sound, mode] at sound
      simp only [step, drops, mode, Bool.and_false]
      split
      next splice =>
        have other : c ≠ '\n' := by rw [splice]; decide
        exact advances_found other rfl rfl
      · exact late_advances sound _ _
  | percent =>
      simp only [Sound, mode] at sound
      simp only [step, drops, mode, Bool.and_false]
      split
      · exact mark_advances sound (by decide +kernel)
      · exact late_advances sound _ _

theorem run_sound (text : List Char) : (start.run text).1.Sound := (run_outcome start_sound text).1

theorem run_line {scan : Scan} (sound : scan.Sound) (text : List Char) :
    (scan.run text).1.line + scan.dropped text = scan.line + text.count '\n' := by
  induction text generalizing scan with
  | nil => rfl
  | cons c rest ih =>
      have here := (step_advances sound c).counted
      have later := ih (step_outcome sound c).1
      have split : (c :: rest).count '\n' = [c].count '\n' + rest.count '\n' := by
        rw [← List.count_append, List.singleton_append]
      rw [run, dropped, split]
      dsimp only
      omega

/-- What is found at a character lies on the line that the character stands on. -/
theorem found_line (before : List Char) {c : Char} {finding : Finding}
    (found : finding ∈ ((start.run before).1.step c).2) :
    finding.line + start.dropped before = 1 + before.count '\n' := by
  rw [(step_advances (run_sound before) c).found finding found, run_line start_sound]
  rfl

end Scan

namespace Lexer

structure Stands (text read : List Char) (lexer : Lexer) : Prop where
  text : text = read ++ lexer.input
  scan : lexer.scan = (Scan.start.run read).1
  ready : ∀ finding ∈ lexer.ready, ∃ before c, read = before ++ [c] ∧
    finding ∈ ((Scan.start.run before).1.step c).2

theorem stands_empty : Stands [] [] empty := ⟨rfl, rfl, by simp [empty]⟩

theorem readOn_stands (before input : List Char) :
    ∃ more, Stands (before ++ input) (before ++ more) (readOn (Scan.start.run before).1 input) := by
  induction input generalizing before with
  | nil => exact ⟨[], by simp [readOn], by simp [readOn], by simp [readOn]⟩
  | cons c rest ih =>
      have further : (Scan.start.run (before ++ [c])).1 = ((Scan.start.run before).1.step c).1 := by
        simp [Scan.run_append, Scan.run]
      rw [readOn]
      split
      next next silent =>
        rw [silent] at further
        obtain ⟨more, stands⟩ := ih (before ++ [c])
        exact ⟨c :: more, by simpa [further] using stands⟩
      next next finding later found =>
        rw [found] at further
        refine ⟨[c], by simp, further.symm, fun it member => ⟨before, c, rfl, ?_⟩⟩
        rw [found]
        exact member

section Stands

variable {text read : List Char} {lexer : Lexer}

theorem Stands.feed (stands : Stands text read lexer) (chunk : String) :
    Stands (text ++ chunk.toList) read (lexer.feed chunk) :=
  ⟨by simp [stands.text, Lexer.feed], stands.scan, stands.ready⟩

theorem Stands.fill (stands : Stands text read lexer) : ∃ read, Stands text read lexer.fill := by
  unfold Lexer.fill
  split
  next nothing =>
    obtain ⟨more, filled⟩ := readOn_stands read lexer.input
    rw [← stands.scan, ← stands.text] at filled
    exact ⟨_, filled⟩
  next => exact ⟨read, stands⟩

theorem Stands.pass (stands : Stands text read lexer) : Stands text read lexer.pass :=
  ⟨stands.text, stands.scan, fun finding member => stands.ready finding (List.mem_of_mem_tail member)⟩

theorem Stands.next (stands : Stands text read lexer) : ∃ read, Stands text read lexer.next.2 := by
  obtain ⟨further, filled⟩ := stands.fill
  rw [next_eq]
  exact ⟨further, filled.pass⟩

theorem Stands.call (stands : Stands text read lexer) (call : Call) :
    ∃ read, Stands (text ++ call.chunk.toList) read (call.run lexer).2 := by
  cases call with
  | feed chunk => exact ⟨read, stands.feed chunk⟩
  | next => simpa [Call.run, Call.chunk] using stands.next
  | peek =>
      simp only [Call.run, Call.chunk, peek_eq, String.toList_empty, List.append_nil]
      split
      · exact stands.next
      · exact stands.fill

theorem Stands.handed (stands : Stands text read lexer) {finding : Finding}
    (handed : lexer.next.1 = some finding) :
    ∃ before c, text = before ++ c :: lexer.next.2.input ∧
      finding ∈ ((Scan.start.run before).1.step c).2 := by
  obtain ⟨further, filled⟩ := stands.fill
  have first : lexer.fill.ready.head? = some finding := by
    rw [fill_ready]
    simpa [next_eq] using handed
  obtain ⟨before, c, shown, found⟩ := filled.ready finding (List.mem_of_mem_head? first)
  refine ⟨before, c, ?_, found⟩
  rw [filled.text, shown, next_eq, List.append_assoc]
  rfl

end Stands

inductive Use where
  | call (call : Call)
  | reset

def Use.run (state : List Char × Lexer) : Use → List Char × Lexer
  | .call made => (state.1 ++ made.chunk.toList, (made.run state.2).2)
  | .reset => ([], state.2.reset)

def used (uses : List Use) : List Char × Lexer := uses.foldl Use.run ([], empty)

theorem used_stands (uses : List Use) : ∃ read, Stands (used uses).1 read (used uses).2 := by
  have run (state : List Char × Lexer) (stands : ∃ read, Stands state.1 read state.2) (uses : List Use) :
      ∃ read, Stands (uses.foldl Use.run state).1 read (uses.foldl Use.run state).2 := by
    induction uses generalizing state with
    | nil => exact stands
    | cons use later ih =>
        obtain ⟨read, stands⟩ := stands
        cases use with
        | call made => exact ih _ (stands.call made)
        | reset => exact ih _ ⟨[], stands_empty⟩
  exact run _ ⟨[], stands_empty⟩ uses

/-- Whatever is done with a lexer, its line is the first one and one more for every newline that it has
read since the last reset, but for the newlines that are dropped; and a token or fault that is handed out
has the line of the character that ended it, by the same count. -/
theorem line_counts (uses : List Use) :
    let text := (used uses).1
    let lexer := (used uses).2
    ∃ read, text = read ++ lexer.input ∧
      lexer.line + Scan.start.dropped read = 1 + read.count '\n' ∧
      ∀ finding, lexer.next.1 = some finding ∨ lexer.peek.1 = some finding →
        ∃ before c, text = before ++ c :: lexer.next.2.input ∧
          finding ∈ ((Scan.start.run before).1.step c).2 ∧
          finding.line + Scan.start.dropped before = 1 + before.count '\n' := by
  intro text lexer
  obtain ⟨read, stands⟩ := used_stands uses
  refine ⟨read, stands.text, ?_, fun finding handed => ?_⟩
  · rw [line, stands.scan, Scan.run_line Scan.start_sound]
    rfl
  · have byNext : lexer.next.1 = some finding := by
      rcases handed with next | peek
      · exact next
      · rwa [peek_eq] at peek
    obtain ⟨before, c, shown, found⟩ := stands.handed byNext
    exact ⟨before, c, shown, found, Scan.found_line before found⟩

/-- The newline that ends `12abc` is read and not counted, so that the name on the second line is said to
stand on the first one. -/
theorem newline_lost :
    let lexer := (used [.call (.feed "12abc\nx "), .call .next]).2
    let later := (used [.call (.feed "12abc\nx "), .call .next, .call .next]).2
    lexer.next.1.map Finding.line = some 1 ∧ later.input = [] ∧ later.line = 1 ∧
      "12abc\nx ".toList.count '\n' = 1 := by
  decide +kernel

end Lexer

end StackLisp
