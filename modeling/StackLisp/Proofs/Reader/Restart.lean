import StackLisp.Proofs.Reader.Schedule

/-!
A restart leaves nothing of the earlier text behind. A reader holds on to it in many places: forms
that wait for more, a token half read and its line, findings not parsed yet, data held back, replies
not collected. What it was asked before decides about all of them, and about none of the answers
behind a restart.
-/

namespace StackLisp.Reader

inductive Ask where
  | send (text : String)
  | restart (text : String)
  | collect

def Ask.put (reader : Reader) (table : SymbolTable) : Ask → List Answer × Reader × SymbolTable
  | .send text => ([], reader.feed table text)
  | .restart text => ([], reader.restart table text)
  | .collect =>
    let ((data, error), next) := reader.collect
    ([⟨reader.owes, data, error⟩], next, table)

def converse (reader : Reader) (table : SymbolTable) :
    List Ask → List Answer × Reader × SymbolTable
  | [] => ([], reader, table)
  | ask :: later =>
    let (answers, next, table) := ask.put reader table
    let (others, last) := next.converse table later
    (answers ++ others, last)

theorem converse_append (reader : Reader) (table : SymbolTable) (earlier later : List Ask) :
    reader.converse table (earlier ++ later) =
      let (answers, next, table) := reader.converse table earlier
      let (others, last) := next.converse table later
      (answers ++ others, last) := by
  induction earlier generalizing reader table with
  | nil => rfl
  | cons ask others ih => simp only [List.cons_append, converse, ih, List.append_assoc]

theorem put_stopped (reader : Reader) (table : SymbolTable) (ask : Ask) :
    (ask.put reader table).2.1.stopped = reader.stopped := by
  cases ask with
  | send text => exact feed_stopped reader table text
  | restart text => exact restart_stopped reader table text
  | collect => exact collect_stopped reader

theorem converse_stopped (reader : Reader) (table : SymbolTable) (asks : List Ask) :
    (reader.converse table asks).2.1.stopped = reader.stopped := by
  induction asks generalizing reader table with
  | nil => rfl
  | cons ask later ih =>
      simp only [converse, ih]
      exact put_stopped reader table ask

theorem settle_owes (reader : Reader) : reader.settle.owes = true := by
  unfold settle
  split
  · split <;> simp [owes, reply]
  · simp [owes, reply]

theorem fail_owes (reader : Reader) (error : Error) : (reader.fail error).owes = true := by
  simp [fail, owes, reply]

theorem advance_owes (reader : Reader) (table : SymbolTable) (findings : List Finding) :
    (reader.advance table findings).1.owes = true := by
  induction findings generalizing reader table with
  | nil => exact settle_owes _
  | cons finding later ih =>
      cases finding with
      | fault line problem => exact fail_owes _ _
      | token token =>
          simp only [advance]
          split
          · exact ih _ _
          · exact fail_owes _ _

theorem feed_owes (reader : Reader) (table : SymbolTable) (text : String) :
    (reader.feed table text).1.owes = true := advance_owes _ _ _

/-- Whatever was asked of a reader before, behind a restart it has something to tell, and all that
it is asked then it answers as a new reader does that is sent the same text with the symbols known
by then. -/
theorem restart_isolated (table : SymbolTable) (history : List Ask) (text : String)
    (later : List Ask) :
    let before := start.converse table history
    let anew := start.converse before.2.2 (.send text :: later)
    start.converse table (history ++ .restart text :: later) = (before.1 ++ anew.1, anew.2) ∧
      (before.2.1.restart before.2.2 text).1.owes = true := by
  intro before anew
  have running : before.2.1.stopped = start.stopped := converse_stopped start table history
  have same : before.2.1.restart before.2.2 text = start.feed before.2.2 text := by
    rw [restart_eq, running]
  constructor
  · calc start.converse table (history ++ .restart text :: later)
        = (before.1 ++ (before.2.1.converse before.2.2 (.restart text :: later)).1,
            (before.2.1.converse before.2.2 (.restart text :: later)).2) :=
          converse_append start table history _
      _ = (before.1 ++ anew.1, anew.2) := by
          simp only [converse, Ask.put, same, anew]
  · rw [same]
    exact feed_owes start before.2.2 text

example :
    (start.converse .empty
      [.send "a (b\n[\"c", .restart "d\n)", .collect, .send "e ", .collect]).1.map
        (fun answer => (answer.data.length, answer.error)) =
      [(1, some (.parse 2 (.unexpected ")"))), (1, none)] := by
  cbv

end StackLisp.Reader
