import Mathlib.Data.List.Basic
import StackLisp.Token.Lexer
import StackLisp.Proofs.Reader.Through

/-!
Neither the chunks of a text nor the calls between them make a difference to what a lexer finds.

A lexer stops behind the first character that yields a finding, in whatever mode that leaves it.
Its future is settled all the same: the findings it holds ready and those its scan will make of the
unread text are what is left of the whole text's findings, and a call changes no more than how far
into them the lexer is.
-/

namespace StackLisp

def Finding.isFault : Finding → Bool
  | .token _ => false
  | .fault _ _ => true

namespace Lexer

def left (lexer : Lexer) : List Finding := lexer.ready ++ (lexer.scan.run lexer.input).2

def ending (lexer : Lexer) : Scan := (lexer.scan.run lexer.input).1

def pass (lexer : Lexer) : Lexer := { lexer with ready := lexer.ready.tail }

section Reading

variable (lexer : Lexer)

theorem readOn_left (scan : Scan) (input : List Char) :
    (readOn scan input).left = (scan.run input).2 := by
  induction input generalizing scan with
  | nil => rfl
  | cons c rest ih =>
      rw [readOn, Scan.run]
      split
      next next stepped => simp [stepped, ih]
      next next finding later stepped => simp [stepped, left]

theorem readOn_ending (scan : Scan) (input : List Char) :
    (readOn scan input).ending = (scan.run input).1 := by
  induction input generalizing scan with
  | nil => rfl
  | cons c rest ih =>
      rw [readOn, Scan.run]
      split
      next next stepped => simp [stepped, ih]
      next next finding later stepped => simp [stepped, ending]

theorem readOn_input {scan : Scan} {input : List Char} (nothing : (readOn scan input).ready = []) :
    (readOn scan input).input = [] := by
  induction input generalizing scan with
  | nil => rfl
  | cons c rest ih =>
      rw [readOn] at nothing ⊢
      split at nothing
      next next stepped => exact ih nothing
      next next finding later stepped => simp at nothing

@[simp] theorem fill_left : lexer.fill.left = lexer.left := by
  unfold fill
  split
  next nothing => rw [readOn_left, left, nothing, List.nil_append]
  next => rfl

@[simp] theorem fill_ending : lexer.fill.ending = lexer.ending := by
  unfold fill
  split
  next => rw [readOn_ending, ending]
  next => rfl

theorem fill_input (nothing : lexer.fill.ready = []) : lexer.fill.input = [] := by
  unfold fill at nothing ⊢
  split at nothing
  next => exact readOn_input nothing
  next finding later ready => simp [ready] at nothing

@[simp] theorem fill_fill : lexer.fill.fill = lexer.fill := by
  generalize filled : lexer.fill = after
  obtain ⟨scan, input, ready⟩ := after
  cases ready with
  | nil =>
      have used : input = [] := by simpa [filled] using lexer.fill_input (by rw [filled])
      rw [used]
      rfl
  | cons finding later => rfl

theorem fill_ready : lexer.fill.ready.head? = lexer.left.head? := by
  rw [← fill_left, left]
  cases ready : lexer.fill.ready with
  | nil => rw [lexer.fill_input ready]; rfl
  | cons finding later => rfl

theorem next_eq : lexer.next = (lexer.left.head?, lexer.fill.pass) := by
  rw [← fill_ready, next]
  generalize lexer.fill = after
  obtain ⟨scan, input, ready⟩ := after
  cases ready <;> rfl

theorem next_left : lexer.next.2.left = lexer.left.tail := by
  rw [next_eq, ← lexer.fill_left, left, left]
  cases ready : lexer.fill.ready with
  | nil => simp [pass, ready, lexer.fill_input ready, Scan.run]
  | cons finding later => simp [pass, ready]

@[simp] theorem next_ending : lexer.next.2.ending = lexer.ending := by
  rw [next_eq, ← lexer.fill_ending]
  rfl

/-- A peek finds what a `next` in its place would, and uses it up only if that is a fault. -/
theorem peek_eq :
    lexer.peek =
      (lexer.next.1, if lexer.next.1.any Finding.isFault then lexer.next.2 else lexer.fill) := by
  rw [next_eq, ← fill_ready, peek]
  generalize lexer.fill = after
  obtain ⟨scan, input, ready⟩ := after
  cases ready with
  | nil => rfl
  | cons finding later => cases finding <;> rfl

@[simp] theorem fill_next : lexer.fill.next = lexer.next := by
  simp only [next_eq, fill_left, fill_fill]

end Reading

theorem left_of_next_none {lexer last : Lexer} (asked : lexer.next = (none, last)) :
    lexer.left = [] := by
  have nothing : lexer.left.head? = none := by simpa [next_eq] using congrArg Prod.fst asked
  simpa using nothing

theorem left_of_next_some {lexer rest : Lexer} {finding : Finding}
    (asked : lexer.next = (some finding, rest)) : lexer.left = finding :: rest.left := by
  have found : lexer.left.head? = some finding := by simpa [next_eq] using congrArg Prod.fst asked
  have others : rest.left = lexer.left.tail := by simpa [asked] using lexer.next_left
  rw [others, List.cons_head?_tail found]

def drain (lexer : Lexer) : List Finding :=
  match _asked : lexer.next with
  | (none, _) => []
  | (some finding, rest) => finding :: rest.drain
termination_by lexer.left.length
decreasing_by
  rw [left_of_next_some _asked]
  exact Nat.lt_succ_self _

theorem drain_eq (lexer : Lexer) : lexer.drain = lexer.left := by
  induction lexer using drain.induct with
  | case1 lexer last asked =>
      rw [drain, asked, left_of_next_none asked]
  | case2 lexer finding rest asked ih =>
      rw [drain, asked]
      dsimp only
      rw [ih, left_of_next_some asked]

inductive Call where
  | feed (chunk : String)
  | next
  | peek

namespace Call

def run (lexer : Lexer) : Call → List Finding × Lexer
  | feed chunk => ([], lexer.feed chunk)
  | next => (lexer.next.1.toList, lexer.next.2)
  | peek => ((lexer.peek.1.filter Finding.isFault).toList, lexer.peek.2)

def chunk : Call → String
  | feed chunk => chunk
  | next | peek => ""

end Call

def consume (lexer : Lexer) : List Call → List Finding × Lexer
  | [] => ([], lexer)
  | call :: later =>
    let (used, lexer) := call.run lexer
    let (further, last) := lexer.consume later
    (used ++ further, last)

def fed (calls : List Call) : String := String.join (calls.map Call.chunk)

structure Reads (lexer : Lexer) (used : List Finding) (text : List Char) : Prop where
  found : used ++ lexer.left = (Scan.start.run text).2
  ending : lexer.ending = (Scan.start.run text).1

theorem reads_empty : Reads empty [] [] := ⟨rfl, rfl⟩

theorem reads_feed {lexer : Lexer} {used : List Finding} {text : List Char}
    (reads : Reads lexer used text) (chunk : String) :
    Reads (lexer.feed chunk) used (text ++ chunk.toList) := by
  obtain ⟨found, behind⟩ := reads
  have whole := Scan.run_append Scan.start text chunk.toList
  have own := Scan.run_append lexer.scan lexer.input chunk.toList
  constructor
  · rw [whole, ← found, ← behind]
    simp [left, feed, own, ending, List.append_assoc]
  · rw [whole, ← behind]
    simp [ending, feed, own]

theorem reads_call {lexer : Lexer} {used : List Finding} {text : List Char}
    (reads : Reads lexer used text) (call : Call) :
    Reads (call.run lexer).2 (used ++ (call.run lexer).1) (text ++ call.chunk.toList) := by
  have taken : lexer.next.1.toList ++ lexer.next.2.left = lexer.left := by
    rw [next_left, next_eq]
    cases lexer.left <;> rfl
  have byNext : Reads lexer.next.2 (used ++ lexer.next.1.toList) text :=
    ⟨by rw [List.append_assoc, taken, reads.found], by rw [next_ending, reads.ending]⟩
  cases call with
  | feed chunk => simpa [Call.run, Call.chunk] using reads_feed reads chunk
  | next => simpa [Call.run, Call.chunk] using byNext
  | peek =>
      simp only [Call.run, Call.chunk, peek_eq, String.toList_empty, List.append_nil]
      by_cases fault : lexer.next.1.any Finding.isFault
      · have usedUp : lexer.next.1.filter Finding.isFault = lexer.next.1 := by
          rw [Option.any_eq_true] at fault
          obtain ⟨finding, found, isFault⟩ := fault
          simp [found, isFault]
        rw [if_pos fault, usedUp]
        exact byNext
      · have kept : lexer.next.1.filter Finding.isFault = none := by
          rw [Option.filter_eq_none_iff]
          simpa [Option.any_eq_true] using fault
        rw [if_neg fault, kept, Option.toList_none, List.append_nil]
        exact ⟨by rw [fill_left, reads.found], by rw [fill_ending, reads.ending]⟩

theorem reads_consume {lexer : Lexer} {used : List Finding} {text : List Char}
    (reads : Reads lexer used text) (calls : List Call) :
    Reads (lexer.consume calls).2 (used ++ (lexer.consume calls).1)
      (text ++ (fed calls).toList) := by
  induction calls generalizing lexer used text with
  | nil => simpa [consume, fed] using reads
  | cons call later ih =>
      have step := ih (reads_call reads call)
      simpa [consume, fed, String.join_cons, List.append_assoc] using step

/-- Whatever the calls, the findings they use up are the first of those that the whole text hands
out when it is fed at once: all of them as soon as nothing further is to be had, and with the rest
if one goes on. A peek shows what a `next` in its place would find, and unless that is a fault a
`next` behind it finds the same. -/
theorem consume_chunks (calls : List Call) (rest : String) :
    let used := (empty.consume calls).1
    let lexer := (empty.consume calls).2
    let whole := (empty.feed (fed calls)).drain
    used <+: (empty.feed (fed calls ++ rest)).drain ∧
      used ++ lexer.drain = whole ∧
      (lexer.next.1 = none ↔ used = whole) ∧
      (lexer.peek.1 = lexer.next.1 ∧ lexer.peek.2.line = lexer.next.2.line) ∧
      (lexer.peek.1.any Finding.isFault = false → lexer.peek.2.next = lexer.next) := by
  intro used lexer whole
  have reads : Reads lexer used (fed calls).toList := by
    simpa using reads_consume reads_empty calls
  have atOnce (text : String) : (empty.feed text).drain = (Scan.start.run text.toList).2 := by
    simp [drain_eq, left, feed, empty]
  have complete : used ++ lexer.left = whole := reads.found.trans (atOnce _).symm
  refine ⟨?first, ?withRest, ?done, ?shown, ?kept⟩
  case first =>
    rw [atOnce, String.toList_append, Scan.run_append, ← reads.found, List.append_assoc]
    exact List.prefix_append _ _
  case withRest => rw [drain_eq, complete]
  case done =>
    rw [← complete, next_eq, List.self_eq_append_right]
    exact List.head?_eq_none_iff
  case shown =>
    rw [peek_eq]
    exact ⟨rfl, by split <;> simp [next_eq, pass, line]⟩
  case kept =>
    intro sound
    rw [peek_eq] at sound ⊢
    rw [if_neg (by simp [sound]), fill_next]

theorem consume_chunks_malformed :
    let calls : List Call :=
      [.feed "%a \"\\", .peek, .next, .next, .feed "q ~", .peek, .next, .peek, .feed "@b ", .next]
    let used := (empty.consume calls).1
    used =
        [.token ⟨.quote, "%", 1⟩, .token ⟨.atom .symbol, "a", 1⟩, .fault 1 (.unknownEscape 'q'),
          .token ⟨.splice, "~@", 1⟩] ∧
      used ++ (empty.consume calls).2.drain = (empty.feed "%a \"\\q ~@b ").drain ∧
      (empty.consume calls).2.peek.2.next = (empty.consume calls).2.next := by
  intro calls used
  have all := consume_chunks calls ""
  have text : fed calls = "%a \"\\q ~@b " := rfl
  rw [text] at all
  exact ⟨rfl, all.2.1, all.2.2.2.2 rfl⟩

end Lexer

end StackLisp
