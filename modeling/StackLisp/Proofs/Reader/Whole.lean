import StackLisp.Interpreter
import StackLisp.Proofs.Machine.Strict
import StackLisp.Proofs.Reader.Schedule

/-!
How much of a text is read when no error is reported: all of it, up to quoted text that is not
closed.

A text is read with a newline behind it, and behind a newline a scan is between tokens, in a block
comment or in quoted text. The tokens tell the parse of the block comments, so it asks for more
inside of one as it does inside of a form. They do not tell it of quoted text before that is closed:
the reader takes its beginning for the end of the text.
-/

namespace StackLisp

def commentBehind (open? : Bool) : List Finding → Bool
  | [] => open?
  | .fault _ _ :: later => commentBehind open? later
  | .token token :: later =>
    commentBehind (if open? then token.kind ≠ .closeComment else token.kind = .openComment) later

theorem commentBehind_append (open? : Bool) (left right : List Finding) :
    commentBehind open? (left ++ right) = commentBehind (commentBehind open? left) right := by
  induction left generalizing open? with
  | nil => rfl
  | cons finding later ih =>
      cases finding with
      | fault line problem => exact ih _
      | token token => exact ih _

namespace Scan

def inComment (scan : Scan) : Bool := scan.mode == .blockComment || scan.mode == .blockStar

def inText (scan : Scan) : Bool :=
  scan.mode == .text || scan.mode == .escape || scan.mode == .raw

theorem inText_of_isIdle {scan : Scan} (idle : scan.isIdle = true) : scan.inText = false := by
  simp only [isIdle, Bool.and_eq_true, beq_iff_eq] at idle
  simp [inText, idle.1]

def Uncommented (result : Scan × List Finding) : Prop :=
  result.1.inComment = false ∧ commentBehind false result.2 = false

theorem uncommented_cons {scan : Scan} {token : Token} {later : List Finding}
    (ordinary : token.kind ≠ .openComment) (uncommented : Uncommented (scan, later)) :
    Uncommented (scan, .token token :: later) :=
  ⟨uncommented.1, by simpa [commentBehind, ordinary] using uncommented.2⟩

theorem afterAtom_uncommented (scan : Scan) {goOn : Scan → Scan × List Finding}
    (continues : ∀ empty : Scan, empty.mode = scan.mode → Uncommented (goOn empty)) :
    Uncommented (scan.afterAtom goOn) := by
  unfold afterAtom
  split
  · exact continues scan rfl
  · split
    next kind text sorted =>
      refine uncommented_cons ?_ (continues _ rfl)
      unfold sortAtom at sorted
      split at sorted
      · cases sorted
        simp
      · cases sorted
    next => exact ⟨rfl, rfl⟩

theorem passed_mode (scan : Scan) (c : Char) : (scan.passed c).mode = scan.mode := by
  unfold passed
  split <;> rfl

theorem openingMark_uncommented {scan : Scan} (normal : scan.mode = .normal) (c : Char) :
    Uncommented (scan.openingMark c) := by
  unfold openingMark
  split <;> simp [Uncommented, inComment, enter, push, found, commentBehind, normal]

theorem punctuation?_ne_openComment {c : Char} {kind : TokenKind}
    (mark : punctuation? c = some kind) : kind ≠ .openComment := by
  unfold punctuation? at mark
  split at mark <;> simp_all <;> simp [← mark]

theorem ordinary_uncommented {scan : Scan} (normal : scan.mode = .normal) (c : Char) :
    Uncommented (scan.ordinary c) := by
  unfold ordinary
  split
  · exact afterAtom_uncommented _ fun _ _ => ⟨rfl, rfl⟩
  split
  · exact afterAtom_uncommented _ fun _ _ => ⟨rfl, rfl⟩
  split
  · exact afterAtom_uncommented _ fun _ _ => ⟨rfl, rfl⟩
  split
  next kind mark =>
    refine afterAtom_uncommented _ fun empty same => ?_
    exact uncommented_cons (punctuation?_ne_openComment mark)
      ⟨by simp [inComment, same, normal], rfl⟩
  next =>
    split
    · refine afterAtom_uncommented _ fun empty same => ⟨?_, rfl⟩
      simp [inComment, passed_mode, same, normal]
    split
    · exact openingMark_uncommented normal c
    split
    · simp only [closeKeyword]
      split <;> exact ⟨rfl, rfl⟩
    · exact ⟨by simp [inComment, push, normal], rfl⟩

/-- The findings of a step tell of every block comment that it opens or closes. -/
theorem step_comment (scan : Scan) (c : Char) :
    commentBehind scan.inComment (scan.step c).2 = (scan.step c).1.inComment := by
  have plain {result : Scan × List Finding} (uncommented : Uncommented result) :
      commentBehind false result.2 = result.1.inComment :=
    uncommented.2.trans uncommented.1.symm
  have after (kind : TokenKind) (text : String) (ordinary : kind ≠ .openComment) :
      commentBehind false (scan.late kind text c).2 = (scan.late kind text c).1.inComment :=
    plain (uncommented_cons ordinary (ordinary_uncommented rfl c))
  cases mode : scan.mode with
  | normal =>
      have idle : scan.inComment = false := by simp [inComment, mode]
      simpa only [idle, step, mode] using plain (ordinary_uncommented mode c)
  | text =>
      simp only [inComment, step, mode]
      split
      · rfl
      · split
        · rfl
        · simp [commentBehind, passed_mode, push, mode]
  | escape =>
      simp only [inComment, step, mode]
      split <;> rfl
  | lineComment =>
      simp only [inComment, step, mode]
      split
      · simp [commentBehind, passed_mode, close, found]
      · simp [commentBehind, push, mode]
  | blockComment =>
      simp only [inComment, step, mode]
      split
      · rfl
      · simp [commentBehind, passed_mode, push, mode]
  | blockStar =>
      simp only [inComment, step, mode]
      split
      · rfl
      · split
        · simp [commentBehind, push, mode]
        · rfl
  | raw =>
      simp only [inComment, step, mode]
      split
      · rfl
      · simp [commentBehind, passed_mode, push, mode]
  | colon =>
      simp only [inComment, step, mode]
      split
      · rfl
      · exact after _ _ (by simp)
  | slash =>
      simp only [inComment, step, mode]
      split
      · rfl
      · split
        · rfl
        · exact plain (ordinary_uncommented rfl c)
  | tilde =>
      simp only [inComment, step, mode]
      split
      · rfl
      · exact after _ _ (by simp)
  | percent =>
      simp only [inComment, step, mode]
      split
      · exact plain (ordinary_uncommented rfl c)
      · exact after _ _ (by simp)

theorem run_comment (scan : Scan) (text : List Char) :
    commentBehind scan.inComment (scan.run text).2 = (scan.run text).1.inComment := by
  induction text generalizing scan with
  | nil => rfl
  | cons c rest ih => simp only [run, commentBehind_append, step_comment, ih]

theorem ordinary_newline {scan : Scan} (normal : scan.mode = .normal) :
    (scan.ordinary '\n').1.isIdle = true := by
  have blank : isBlank '\n' = true := by decide
  have unmarked : punctuation? '\n' = none := rfl
  have ends : scan.ordinary '\n' = scan.afterAtom fun scan => (scan.passed '\n', []) := by
    simp [ordinary, unmarked, blank]
  rw [ends]
  unfold afterAtom
  split
  next empty => simpa [isIdle, passed, normal] using empty
  next => split <;> simp [isIdle, passed, failed, normal]

theorem step_newline (scan : Scan) :
    (scan.step '\n').1.isIdle = true ∨ (scan.step '\n').1.inComment = true ∨
      (scan.step '\n').1.inText = true := by
  cases mode : scan.mode with
  | normal => exact .inl (by simpa [step, mode] using ordinary_newline mode)
  | text => exact .inr (.inr (by simp [step, mode, inText, passed_mode, push]))
  | escape =>
      have unknown : unescape? '\n' = none := rfl
      exact .inl (by simp [step, mode, unknown, failed, isIdle])
  | lineComment => exact .inl (by simp [step, mode, close, passed, isIdle])
  | blockComment => exact .inr (.inl (by simp [step, mode, inComment, passed_mode, push]))
  | blockStar => exact .inr (.inl (by simp [step, mode, inComment, enter]))
  | raw => exact .inr (.inr (by simp [step, mode, inText, passed_mode, push]))
  | colon => exact .inl (by simpa [step, mode, late] using ordinary_newline rfl)
  | slash => exact .inl (by simpa [step, mode] using ordinary_newline rfl)
  | tilde => exact .inl (by simpa [step, mode, late] using ordinary_newline rfl)
  | percent =>
      have blank : isBlank '\n' = true := by decide
      exact .inl (by simpa [step, mode, blank] using ordinary_newline rfl)

theorem run_newline (scan : Scan) (text : List Char) :
    (scan.run (text ++ ['\n'])).1.isIdle = true ∨
      (scan.run (text ++ ['\n'])).1.inComment = true ∨
      (scan.run (text ++ ['\n'])).1.inText = true := by
  simpa [run_append, run] using step_newline (scan.run text).1

end Scan

namespace Parse

theorem finish_inComment (parse : Parse) (table : SymbolTable) (datum : Datum)
    (forms : List OpenForm) :
    (parse.finish table datum forms).1.inComment = parse.inComment := by
  induction forms generalizing table datum with
  | nil => rfl
  | cons form outer ih =>
      cases form with
      | wrap head => exact ih _ _
      | _ => rfl

theorem begin_inComment {parse next : Parse} {table after : SymbolTable} {token : Token}
    (begun : parse.begin table token = (.ok next, after)) :
    next.inComment = parse.inComment := by
  unfold begin complete at begun
  split at begun
  case h_8 kind _ =>
    cases read : atomDatum table kind token.text with
    | mk outcome between => cases outcome <;> grind [finish_inComment]
  all_goals grind [finish_inComment, enter]

theorem meet_inComment {parse next : Parse} {table after : SymbolTable} {token : Token}
    (met : parse.meet table token = (.ok next, after)) :
    next.inComment = parse.inComment := by
  unfold meet complete at met
  split at met <;> grind [finish_inComment, begin_inComment]

theorem step_inComment {parse next : Parse} {table after : SymbolTable} {token : Token}
    (stepped : parse.step table token = (.ok next, after)) :
    next.inComment = commentBehind parse.inComment [.token token] := by
  unfold step skips? at stepped
  simp only [commentBehind]
  cases commented : parse.inComment with
  | true => grind
  | false => grind [meet_inComment]

theorem through_inComment {parse next : Parse} {table after : SymbolTable}
    {findings : List Finding} (read : parse.through table findings = some (next, after)) :
    next.inComment = commentBehind parse.inComment findings := by
  induction findings generalizing parse table with
  | nil =>
      cases read
      rfl
  | cons finding later ih =>
      cases finding with
      | fault line problem => cases read
      | token token =>
          simp only [through] at read
          split at read
          next middle between stepped =>
            rw [ih read, step_inComment stepped]
            rfl
          next => cases read

end Parse

namespace Reader

structure ReadAll (reader : Reader) (text : String) : Prop where
  scanned : reader.scan = (Scan.start.run text.toList).1
  parsed : reader.pending = []
  closed : reader.parse = .empty
  told : reader.replies = []

section Read

variable {table next : SymbolTable} {text : String} {parse : Parse}

theorem feed_of_through
    (read : Parse.empty.through table (Scan.start.run text.toList).2 = some (parse, next)) :
    (start.feed table text).1 =
      { start with scan := (Scan.start.run text.toList).1, wanting := false, parse }.settle :=
  congrArg Prod.fst (advance_of_through _ read)

theorem readAll_of_idle
    (read : Parse.empty.through table (Scan.start.run text.toList).2 = some (parse, next))
    (idle : parse.isIdle = true) : (start.feed table text).1.collect.2.ReadAll text := by
  obtain ⟨noForms, noComment⟩ : parse.forms = [] ∧ parse.inComment = false := by
    simpa [Parse.isIdle] using idle
  rw [feed_of_through read]
  cases finished : parse.finished with
  | nil =>
      have nothing : parse = .empty := by
        obtain ⟨forms, inComment, finished⟩ := parse
        simp_all [Parse.empty]
      subst nothing
      simp only [settle, idle, finished, collect, start]
      exact ⟨rfl, rfl, rfl, rfl⟩
  | cons datum earlier =>
      simp only [settle, idle, finished, collect, start, reply]
      exact ⟨rfl, rfl, rfl, rfl⟩

theorem collect_of_busy
    (read : Parse.empty.through table (Scan.start.run text.toList).2 = some (parse, next))
    (busy : parse.isIdle = false) :
    (start.feed table text).1.collect.1 = ([], some (.signal .moreInputNeeded)) := by
  rw [feed_of_through read]
  simp [settle, busy, collect, start, reply, readBatch]

theorem isIdle_of_parsed {text : String}
    (read : Parse.empty.through table (Scan.start.run (text ++ "\n").toList).2 =
      some (parse, next))
    (idle : parse.isIdle = true) :
    (Scan.start.run (text ++ "\n").toList).1.isIdle = true ↔
      (Scan.start.run (text ++ "\n").toList).1.inText = false := by
  have noComment : (Scan.start.run (text ++ "\n").toList).1.inComment = false := by
    have known := (Parse.through_inComment read).trans (Scan.run_comment Scan.start _)
    rw [← known]
    simp only [Parse.isIdle, Bool.and_eq_true, Bool.not_eq_true'] at idle
    exact idle.2
  have cut : (text ++ "\n").toList = text.toList ++ ['\n'] := by simp
  constructor
  · exact Scan.inText_of_isIdle
  · intro outside
    rw [cut] at noComment outside ⊢
    rcases Scan.run_newline Scan.start text.toList with scanIdle | inComment | inText
    · exact scanIdle
    · simp [noComment] at inComment
    · simp [outside] at inText

end Read

end Reader

namespace Interpreter

open Machine

def scanned (text : String) : Scan × List Finding := Scan.start.run (text ++ "\n").toList

/-- The text ends in double-quoted text or in text between backticks that is not closed. -/
def EndsInText (text : String) : Prop := (scanned text).1.inText = true

structure ReadsWhole (read : String → Machine (List Value)) (text : String) (world : World) :
    Prop where
  complete : ∀ values after, read text world = .ok values after →
    ∃ reader parse symbols, after.env.reader = some reader ∧ reader.ReadAll (text ++ "\n") ∧
      (reader.scan.isIdle = true ↔ ¬ EndsInText text) ∧
      Parse.empty.through world.store.symbols (scanned text).2 = some (parse, symbols) ∧
      parse.isIdle = true ∧
      { world.store with symbols }.loadAll parse.finished.reverse = (values, after.store)
  unfinished : ∀ parse symbols, (world.env.reader.getD .start).stopped = false →
    Parse.empty.through world.store.symbols (scanned text).2 = some (parse, symbols) →
    parse.isIdle = false → ∃ after, read text world = .error (.error (.signal .moreInputNeeded)) after

theorem readText_apply (text : String) (world : World)
    (running : (world.env.reader.getD .start).stopped = false) :
    readText text world =
      valuesOf (Reader.start.feed world.store.symbols (text ++ "\n")).1.collect.1
        { world with
          store := { world.store with
            symbols := (Reader.start.feed world.store.symbols (text ++ "\n")).2 }
          env := { world.env with
            reader := some (Reader.start.feed world.store.symbols (text ++ "\n")).1.collect.2 } } := by
  have restarted : (world.env.reader.getD .start).restart world.store.symbols (text ++ "\n") =
      Reader.start.feed world.store.symbols (text ++ "\n") := by
    rw [Reader.restart_eq, running]
    rfl
  simp only [readText, bind_apply, onReader, restarted]

theorem readText_stopped (text : String) (world : World)
    (stopped : (world.env.reader.getD .start).stopped = true) :
    ∃ after, readText text world = .error (.error (.signal .shuttingDown)) after := by
  have told : ((world.env.reader.getD .start).restart world.store.symbols
      (text ++ "\n")).1.collect.1 = ([], some (.signal .shuttingDown)) := by
    have still : ((world.env.reader.getD .start).restart world.store.symbols
        (text ++ "\n")).1.stopped = true := by
      rw [Reader.restart_eq, Reader.feed, Reader.advance_stopped]
      exact stopped
    rw [Reader.collect, still]
    rfl
  simp only [readText, bind_apply, onReader, told]
  exact ⟨_, rfl⟩

theorem readLine_apply (text : String) (world : World) (new : world.env.reader = none) :
    readLine text world = readText text world := by
  rw [readText_apply text world (by rw [new]; rfl)]
  simp only [readLine, bind_apply, onReader, new, Option.getD_none]

theorem readText_reads (text : String) (world : World) : ReadsWhole readText text world := by
  constructor
  · intro values after ended
    cases running : (world.env.reader.getD .start).stopped with
    | true =>
        obtain ⟨_, failed⟩ := readText_stopped text world running
        cases failed.symm.trans ended
    | false =>
        rw [readText_apply text world running] at ended
        cases told : (Reader.start.feed world.store.symbols (text ++ "\n")).1.collect.1 with
        | mk data error =>
            rw [told] at ended
            cases error with
            | some error => cases ended
            | none =>
                obtain ⟨parse, read, idle, rfl⟩ := Reader.through_of_whole told
                have readAll := Reader.readAll_of_idle read idle
                obtain ⟨loaded, rfl⟩ := ended
                refine ⟨_, parse, _, rfl, readAll, ?_, read, idle, rfl⟩
                rw [readAll.scanned]
                simpa [EndsInText, scanned] using Reader.isIdle_of_parsed read idle
  · intro parse symbols running read busy
    rw [readText_apply text world running, Reader.collect_of_busy read busy]
    exact ⟨_, rfl⟩

/-- A text that is read as a whole in any world, or as the first line in a world without a reader,
is read to its end if values come out, unless it ends in quoted text. -/
theorem reads_whole (text : String) (world : World) :
    ReadsWhole readText text world ∧
      ReadsWhole readLine text { world with env := { world.env with reader := none } } := by
  refine ⟨readText_reads text world, ?_⟩
  obtain ⟨complete, unfinished⟩ :=
    readText_reads text { world with env := { world.env with reader := none } }
  constructor
  · rw [readLine_apply _ _ rfl]
    exact complete
  · rw [readLine_apply _ _ rfl]
    exact unfinished

/-- Quoted text that is not closed is dropped without a word. -/
theorem readText_openText :
    ∃ after reader, readText "\"abc" (fresh default) = .ok [] after ∧
      after.env.reader = some reader ∧ reader.scan.isIdle = false :=
  ⟨_, _, rfl, rfl, rfl⟩

end Interpreter

end StackLisp
