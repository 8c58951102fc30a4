import Mathlib
import StackLisp.Proofs.Reader.Through

/-!
How a text is cut into chunks, and when the replies are collected, makes no difference to what is
read. The reader keeps apart what was collected, what is queued and what is finished but held back;
in this order they are the data that one parse of the whole text finishes.
-/

namespace StackLisp.Reader

structure Delivery where
  chunk : String
  collected : Bool

structure Answer where
  owed : Bool
  data : List Datum
  error : Option Error

def exchange (reader : Reader) (table : SymbolTable) :
    List Delivery → List Answer × Reader × SymbolTable
  | [] => ([], reader, table)
  | ⟨chunk, collected⟩ :: later =>
    let (fed, table) := reader.feed table chunk
    if collected then
      let ((data, error), next) := fed.collect
      let (answers, last) := next.exchange table later
      (⟨fed.owes, data, error⟩ :: answers, last)
    else fed.exchange table later

def sent (deliveries : List Delivery) : String := String.join (deliveries.map Delivery.chunk)

def wish : Reply := ⟨[], some (.signal .moreInputNeeded)⟩

/-- Replies without errors that hold the given data, then at most a wish for more text. -/
def Orderly (replies : List Reply) (data : List Datum) : Prop :=
  ∃ quiet wishes, replies = quiet ++ wishes ∧ (∀ reply ∈ quiet, reply.error = none) ∧
    (wishes = [] ∨ wishes = [wish]) ∧ data = quiet.flatMap Reply.data

def Answer.harmless (answer : Answer) : Prop :=
  answer.owed = true ∧
    (answer.error = none ∨ answer.error = some (.signal .moreInputNeeded))

theorem orderly_nil : Orderly [] [] := ⟨[], [], rfl, by simp, .inl rfl, rfl⟩

theorem readBatch_quiet {quiet wishes : List Reply}
    (silent : ∀ reply ∈ quiet, reply.error = none) :
    readBatch (quiet ++ wishes) =
      (quiet.flatMap Reply.data ++ (readBatch wishes).1, (readBatch wishes).2) := by
  induction quiet with
  | nil => rfl
  | cons reply later ih =>
      obtain ⟨data, error⟩ := reply
      have none : error = none := silent ⟨data, error⟩ (by simp)
      subst none
      simp [readBatch, ih fun reply member => silent reply (by simp [member])]

theorem readBatch_orderly {replies : List Reply} {data : List Datum}
    (orderly : Orderly replies data) :
    (readBatch replies).1 = data ∧
      ((readBatch replies).2 = none ∨
        (readBatch replies).2 = some (.signal .moreInputNeeded)) := by
  obtain ⟨quiet, wishes, rfl, silent, wish, rfl⟩ := orderly
  rw [readBatch_quiet silent]
  rcases wish with rfl | rfl
  · simp [readBatch]
  · simp [readBatch, Reader.wish]

theorem filter_orderly {replies : List Reply} {data : List Datum}
    (orderly : Orderly replies data) :
    ∃ quiet, replies.filter (fun reply => !asksForInput reply) = quiet ∧
      (∀ reply ∈ quiet, reply.error = none) ∧ data = quiet.flatMap Reply.data := by
  obtain ⟨quiet, wishes, rfl, silent, wish, rfl⟩ := orderly
  refine ⟨quiet, ?_, silent, rfl⟩
  have kept : quiet.filter (fun reply => !asksForInput reply) = quiet := by
    rw [List.filter_eq_self]
    intro reply member
    simp [asksForInput, silent reply member]
  have dropped : wishes.filter (fun reply => !asksForInput reply) = [] := by
    rcases wish with rfl | rfl <;> rfl
  rw [List.filter_append, kept, dropped, List.append_nil]

theorem orderly_append_quiet {quiet : List Reply} (silent : ∀ reply ∈ quiet, reply.error = none)
    (data : List Datum) :
    Orderly (quiet ++ [⟨data, none⟩]) (quiet.flatMap Reply.data ++ data) := by
  refine ⟨quiet ++ [⟨data, none⟩], [], by simp, ?_, .inl rfl, by simp⟩
  intro reply member
  rcases List.mem_append.mp member with earlier | last
  · exact silent reply earlier
  · simp_all

theorem orderly_append_wish {quiet : List Reply} (silent : ∀ reply ∈ quiet, reply.error = none) :
    Orderly (quiet ++ [wish]) (quiet.flatMap Reply.data) :=
  ⟨quiet, [wish], rfl, silent, .inr rfl, rfl⟩

/-- A reader that has read all of its text, by the parse of that text: what was collected from it,
what it has queued and what it holds back are the finished data in order. -/
structure Follows (reader : Reader) (collected : List Datum) (parse : Parse) : Prop where
  running : reader.stopped = false
  caughtUp : reader.pending = []
  delivered : reader.parse.isIdle = true → reader.parse.finished = []
  inOrder : ∃ queued, Orderly reader.replies queued ∧
    parse = reader.parse.behind (collected ++ queued).reverse

theorem follows_start : Follows .start [] .empty :=
  ⟨rfl, rfl, fun _ => rfl, [], orderly_nil, rfl⟩

theorem settle_follows (reader : Reader) (collected : List Datum) {parse : Parse}
    (running : reader.stopped = false) (caughtUp : reader.pending = [])
    {quiet : List Reply} (replies : reader.replies = quiet)
    (silent : ∀ reply ∈ quiet, reply.error = none)
    (whole : parse =
      reader.parse.behind (collected ++ quiet.flatMap Reply.data).reverse) :
    Follows reader.settle collected parse ∧ reader.settle.owes = true := by
  subst replies
  unfold settle
  split
  next idle =>
    split
    next empty =>
      refine ⟨⟨running, caughtUp, fun _ => empty, _,
        ⟨reader.replies, [], by simp, silent, .inl rfl, rfl⟩, ?_⟩, ?_⟩
      · exact whole
      · simp [owes]
    next finished nonempty =>
      refine ⟨⟨running, caughtUp, fun _ => rfl, _, orderly_append_quiet silent _, ?_⟩, ?_⟩
      · obtain ⟨noForms, noComment⟩ : reader.parse.forms = [] ∧ reader.parse.inComment = false := by
          simpa [Parse.isIdle] using idle
        rw [whole, Parse.behind, Parse.behind, noForms, noComment]
        simp [Parse.empty]
      · simp [owes, reply]
  next busy =>
    refine ⟨⟨running, caughtUp, fun idle => absurd idle busy, _, orderly_append_wish silent, ?_⟩, ?_⟩
    · exact whole
    · simp [owes, reply]

theorem settle_scan (reader : Reader) : reader.settle.scan = reader.scan := by
  unfold settle
  split
  · split <;> rfl
  · rfl

/-- One chunk moves a reader on as its findings move the parse on. -/
theorem feed_follows {reader : Reader} {collected : List Datum} {parse next : Parse}
    {table after : SymbolTable} {chunk : String} (follows : Follows reader collected parse)
    (read : parse.through table (reader.scan.run chunk.toList).2 = some (next, after)) :
    ∃ fed, reader.feed table chunk = (fed, after) ∧ Follows fed collected next ∧
      fed.owes = true ∧ fed.scan = (reader.scan.run chunk.toList).1 := by
  obtain ⟨running, caughtUp, _, queued, orderly, rfl⟩ := follows
  obtain ⟨quiet, filtered, silent, rfl⟩ := filter_orderly orderly
  rw [Parse.through_behind] at read
  cases own : reader.parse.through table (reader.scan.run chunk.toList).2 with
  | none => simp [own] at read
  | some state =>
      obtain ⟨ownNext, ownTable⟩ := state
      simp only [own, Option.map_some, Option.some.injEq, Prod.mk.injEq] at read
      obtain ⟨rfl, rfl⟩ := read
      let waiting : Reader := { reader with
        scan := (reader.scan.run chunk.toList).1
        wanting := false
        replies := quiet
        parse := ownNext
        pending := [] }
      have fed : reader.feed table chunk = (waiting.settle, ownTable) := by
        simp only [feed, caughtUp, List.nil_append, filtered]
        exact advance_of_through _ (by exact own)
      obtain ⟨settled, owes⟩ := settle_follows waiting collected
        running rfl rfl silent rfl
      exact ⟨waiting.settle, fed, settled, owes, settle_scan waiting⟩

theorem collect_follows {reader : Reader} {collected : List Datum} {parse : Parse}
    (follows : Follows reader collected parse) :
    ∃ data error, reader.collect =
        ((data, error), { reader with replies := [], wanting := false }) ∧
      (error = none ∨ error = some (.signal .moreInputNeeded)) ∧
      Follows { reader with replies := [], wanting := false } (collected ++ data) parse := by
  obtain ⟨running, caughtUp, delivered, queued, orderly, rfl⟩ := follows
  obtain ⟨sameData, harmless⟩ := readBatch_orderly orderly
  refine ⟨queued, (readBatch reader.replies).2, ?_, harmless, running, caughtUp,
    delivered, [], orderly_nil, by simp⟩
  simp [collect, running, ← sameData]

theorem exchange_follows {deliveries : List Delivery} {reader : Reader}
    {collected : List Datum} {parse next : Parse} {table after : SymbolTable}
    (follows : Follows reader collected parse)
    (read : parse.through table (reader.scan.run (sent deliveries).toList).2 =
      some (next, after)) :
    ∃ answers last, reader.exchange table deliveries = (answers, last, after) ∧
      (∀ answer ∈ answers, answer.harmless) ∧
      Follows last (collected ++ answers.flatMap Answer.data) next := by
  induction deliveries generalizing reader collected parse table with
  | nil =>
      simp only [sent, List.map_nil, String.join_nil, String.toList_empty, Scan.run,
        Parse.through, Option.some.injEq, Prod.mk.injEq] at read
      obtain ⟨rfl, rfl⟩ := read
      exact ⟨[], reader, rfl, by simp, by simpa using follows⟩
  | cons delivery later ih =>
      obtain ⟨chunk, isCollected⟩ := delivery
      have cut : (sent (⟨chunk, isCollected⟩ :: later)).toList =
          chunk.toList ++ (sent later).toList := by
        simp [sent, String.join_cons]
      rw [cut, Scan.run_append, Parse.through_append] at read
      cases first : parse.through table (reader.scan.run chunk.toList).2 with
      | none => simp [first] at read
      | some state =>
          obtain ⟨middle, between⟩ := state
          rw [first, Option.bind_some] at read
          obtain ⟨fed, fedEq, fedFollows, owes, scanEq⟩ := feed_follows follows first
          rw [← scanEq] at read
          cases isCollected with
          | false =>
              obtain ⟨answers, last, exchanged, harmless, lastFollows⟩ := ih fedFollows read
              exact ⟨answers, last, by simpa [exchange, fedEq] using exchanged, harmless,
                lastFollows⟩
          | true =>
              obtain ⟨data, error, collectEq, mild, nextFollows⟩ := collect_follows fedFollows
              obtain ⟨answers, last, exchanged, harmless, lastFollows⟩ := ih nextFollows read
              refine ⟨⟨fed.owes, data, error⟩ :: answers, last, ?_, ?_, ?_⟩
              · simp [exchange, fedEq, collectEq, exchanged]
              · intro answer member
                rcases List.mem_cons.mp member with rfl | inLater
                · exact ⟨owes, mild⟩
                · exact harmless answer inLater
              · simpa [List.append_assoc] using lastFollows

theorem exchange_replies (reader : Reader) (table : SymbolTable) (front : List Delivery)
    (final : String)
    (running : (reader.exchange table (front ++ [⟨final, true⟩])).2.1.stopped = false) :
    (reader.exchange table (front ++ [⟨final, true⟩])).2.1.replies = [] := by
  induction front generalizing reader table with
  | nil =>
      simp only [List.nil_append, exchange, ↓reduceIte] at running ⊢
      unfold collect at running ⊢
      split
      next stopped => simp [stopped] at running
      next => rfl
  | cons delivery later ih =>
      obtain ⟨chunk, collected⟩ := delivery
      cases collected with
      | false => exact ih _ _ running
      | true => exact ih _ _ running

/-- A text that is read at once without an error is parsed without a refusal, and nothing is open
behind it. -/
theorem through_of_whole {table : SymbolTable} {text : String} {data : List Datum}
    (whole : (start.feed table text).1.collect.1 = (data, none)) :
    ∃ parse, Parse.empty.through table (Scan.start.run text.toList).2 =
        some (parse, (start.feed table text).2) ∧
      parse.isIdle = true ∧ data = parse.finished.reverse := by
  rw [feed_start] at whole ⊢
  cases read : Parse.empty.through table (Scan.start.run text.toList).2 with
  | none =>
      obtain ⟨earlier, error, replies⟩ := advance_of_refusal (opened text) read
      have running : ((opened text).advance table (Scan.start.run text.toList).2).1.stopped = false :=
        advance_stopped (opened text) table _
      rw [collect, running, replies] at whole
      simp [opened, start, readBatch] at whole
  | some state =>
      obtain ⟨parse, next⟩ := state
      rw [advance_of_through (opened text) read] at whole ⊢
      refine ⟨parse, rfl, ?_⟩
      by_cases idle : parse.isIdle = true
      · refine ⟨idle, ?_⟩
        cases finished : parse.finished with
        | nil => simpa [settle, idle, finished, collect, opened, start, readBatch] using whole.symm
        | cons datum earlier =>
            simpa [settle, idle, finished, collect, opened, start, readBatch, reply] using
              whole.symm
      · simp [settle, idle, collect, opened, start, readBatch, reply] at whole

theorem collect_of_through {table next : SymbolTable} (text : String) {parse : Parse}
    (read : Parse.empty.through table (Scan.start.run text.toList).2 = some (parse, next))
    (idle : parse.isIdle = true) :
    (start.feed table text).1.collect.1 = (parse.finished.reverse, none) ∧
      (start.feed table text).2 = next := by
  rw [feed_start, advance_of_through (opened text) read]
  refine ⟨?_, rfl⟩
  cases finished : parse.finished with
  | nil => simp [settle, idle, finished, collect, opened, start, readBatch]
  | cons datum earlier =>
      simp [settle, idle, finished, collect, opened, start, readBatch, reply]

theorem collected_of_follows {reader : Reader} {collected : List Datum} {parse : Parse}
    (follows : Follows reader collected parse) (idle : parse.isIdle = true)
    (taken : reader.replies = []) : collected = parse.finished.reverse := by
  obtain ⟨_, _, delivered, queued, ⟨quiet, wishes, replies, _, _, rfl⟩, rfl⟩ := follows
  have nothingQueued : quiet = [] := by
    rw [taken] at replies
    exact (List.append_eq_nil_iff.mp replies.symm).1
  have nothingHeld : reader.parse.finished = [] := delivered idle
  simp [nothingQueued, nothingHeld]

/-- However a text is cut into chunks, and wherever the replies are collected between them, as long
as they are collected behind the last one: every collect gets an answer, its error at most asks for
more text, and all answers together hold the data of the text read at once, with the symbols under
the same numbers. -/
theorem exchange_reads_whole {table : SymbolTable} {text : String} {data : List Datum}
    (whole : (start.feed table text).1.collect.1 = (data, none))
    {front : List Delivery} {final : String}
    (division : sent (front ++ [⟨final, true⟩]) = text) :
    (∀ answer ∈ (start.exchange table (front ++ [⟨final, true⟩])).1, answer.harmless) ∧
      (start.exchange table (front ++ [⟨final, true⟩])).1.flatMap Answer.data = data ∧
      (start.exchange table (front ++ [⟨final, true⟩])).2.2 = (start.feed table text).2 := by
  obtain ⟨parse, read, idle, rfl⟩ := through_of_whole whole
  rw [← division] at read
  obtain ⟨answers, last, exchanged, harmless, follows⟩ := exchange_follows follows_start read
  have taken : last.replies = [] := by
    have ended := exchange_replies start table front final
    rw [exchanged] at ended
    exact ended follows.running
  have complete : answers.flatMap Answer.data = parse.finished.reverse := by
    simpa using collected_of_follows follows idle taken
  rw [exchanged]
  exact ⟨harmless, complete, by rw [division]⟩

theorem exchange_reads_whole_split :
    let whole := start.feed .empty "(a /* x */ b) %c d "
    let parts := start.exchange .empty
      ([⟨"(a /", true⟩, ⟨"* x *", false⟩, ⟨"", true⟩, ⟨"/ b) %", false⟩] ++ [⟨"c d ", true⟩])
    (∀ answer ∈ parts.1, answer.harmless) ∧
      parts.1.flatMap Answer.data =
        [.list [.symbol ⟨"a", 0, false⟩, .symbol ⟨"b", 1, false⟩],
          .list [.symbol ⟨"quote", 3, false⟩, .symbol ⟨"c", 2, false⟩],
          .symbol ⟨"d", 4, false⟩] ∧
      parts.2.2 = whole.2 :=
  exchange_reads_whole (by cbv) (by cbv)

end StackLisp.Reader
