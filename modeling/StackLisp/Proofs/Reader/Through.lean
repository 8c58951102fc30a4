import StackLisp.Datum.Reader

/-!
Parses over whole stretches of text. `Parse.through` goes through findings as long as nothing is
refused; a reader that meets no refusal does just that, and one that reports no error has met none.
-/

namespace StackLisp

namespace Scan

theorem run_append (scan : Scan) (left right : List Char) :
    scan.run (left ++ right) =
      (((scan.run left).1.run right).1,
        (scan.run left).2 ++ ((scan.run left).1.run right).2) := by
  induction left generalizing scan with
  | nil => simp [run]
  | cons c rest ih => simp [run, ih, List.append_assoc]

end Scan

namespace Parse

/-- The parse behind some findings; none if a fault or a refusal is among them. -/
def through (parse : Parse) (table : SymbolTable) :
    List Finding → Option (Parse × SymbolTable)
  | [] => some (parse, table)
  | .fault _ _ :: _ => none
  | .token token :: later =>
    match parse.step table token with
    | (.ok next, table) => next.through table later
    | (.error _, _) => none

theorem through_append (parse : Parse) (table : SymbolTable) (left right : List Finding) :
    parse.through table (left ++ right) =
      (parse.through table left).bind fun state => state.1.through state.2 right := by
  induction left generalizing parse table with
  | nil => rfl
  | cons finding later ih =>
      cases finding with
      | fault line problem => rfl
      | token token =>
          simp only [List.cons_append, through]
          split
          · rename_i next table stepped
            exact ih next table
          · rfl

def behind (parse : Parse) (earlier : List Datum) : Parse :=
  { parse with finished := parse.finished ++ earlier }

@[simp] theorem behind_forms (parse : Parse) (earlier : List Datum) :
    (parse.behind earlier).forms = parse.forms := rfl

@[simp] theorem behind_inComment (parse : Parse) (earlier : List Datum) :
    (parse.behind earlier).inComment = parse.inComment := rfl

@[simp] theorem behind_finished (parse : Parse) (earlier : List Datum) :
    (parse.behind earlier).finished = parse.finished ++ earlier := rfl

theorem finish_behind (parse : Parse) (earlier : List Datum) (table : SymbolTable)
    (datum : Datum) (forms : List OpenForm) :
    (parse.behind earlier).finish table datum forms =
      ((parse.finish table datum forms).1.behind earlier,
        (parse.finish table datum forms).2) := by
  induction forms generalizing table datum with
  | nil => rfl
  | cons form outer ih =>
      cases form with
      | wrap head => exact ih _ _
      | _ => rfl

theorem complete_behind (parse : Parse) (earlier : List Datum) (table : SymbolTable)
    (datum : Datum) (outer : List OpenForm) :
    (parse.behind earlier).complete table datum outer =
      ((parse.complete table datum outer).1.map (·.behind earlier),
        (parse.complete table datum outer).2) := by
  simp only [complete, finish_behind]
  rfl

theorem begin_behind (parse : Parse) (earlier : List Datum) (table : SymbolTable)
    (token : Token) :
    (parse.behind earlier).begin table token =
      ((parse.begin table token).1.map (·.behind earlier), (parse.begin table token).2) := by
  unfold begin
  split
  case h_8 kind _ =>
    cases read : atomDatum table kind token.text with
    | mk outcome next => cases outcome <;> simp [complete_behind, Except.map]
  all_goals first
    | exact complete_behind _ _ _ _ _
    | rfl

theorem meet_behind (parse : Parse) (earlier : List Datum) (table : SymbolTable)
    (token : Token) :
    (parse.behind earlier).meet table token =
      ((parse.meet table token).1.map (·.behind earlier), (parse.meet table token).2) := by
  simp only [meet, behind_forms]
  split
  · split
    · exact complete_behind _ _ _ _ _
    · split
      · split <;> rfl
      · exact begin_behind _ _ _ _
  · split
    · exact complete_behind _ _ _ _ _
    · rfl
  · split
    · exact complete_behind _ _ _ _ _
    · exact begin_behind _ _ _ _
  · split
    · exact complete_behind _ _ _ _ _
    · exact begin_behind _ _ _ _
  · exact begin_behind _ _ _ _

theorem skips?_behind (parse : Parse) (earlier : List Datum) (token : Token) :
    (parse.behind earlier).skips? token = (parse.skips? token).map (·.behind earlier) := by
  by_cases commented : parse.inComment = true
  · simp only [skips?, behind_inComment, commented, ↓reduceIte, Option.map_some]
    split <;> rfl
  · simp only [skips?, behind_inComment, commented]
    cases token.kind <;> rfl

theorem step_behind (parse : Parse) (earlier : List Datum) (table : SymbolTable)
    (token : Token) :
    (parse.behind earlier).step table token =
      ((parse.step table token).1.map (·.behind earlier), (parse.step table token).2) := by
  simp only [step, skips?_behind]
  cases parse.skips? token with
  | none => exact meet_behind _ _ _ _
  | some next => rfl

theorem through_behind (parse : Parse) (earlier : List Datum) (table : SymbolTable)
    (findings : List Finding) :
    (parse.behind earlier).through table findings =
      (parse.through table findings).map fun state => (state.1.behind earlier, state.2) := by
  induction findings generalizing parse table with
  | nil => rfl
  | cons finding later ih =>
      cases finding with
      | fault line problem => rfl
      | token token =>
          simp only [through, step_behind]
          cases stepped : parse.step table token with
          | mk outcome next =>
              cases outcome with
              | error problem => rfl
              | ok parse => exact ih parse next

end Parse

namespace Reader

def opened (text : String) : Reader :=
  { start with
    scan := (Scan.start.run text.toList).1
    wanting := false }

theorem feed_start (table : SymbolTable) (text : String) :
    start.feed table text = (opened text).advance table (Scan.start.run text.toList).2 := rfl

/-- A reader that meets no refusal parses all that was found, and settles. -/
theorem advance_of_through (reader : Reader) {table next : SymbolTable} {parse : Parse}
    {findings : List Finding}
    (read : reader.parse.through table findings = some (parse, next)) :
    reader.advance table findings = ({ reader with parse, pending := [] }.settle, next) := by
  induction findings generalizing reader table with
  | nil =>
      simp only [Parse.through, Option.some.injEq, Prod.mk.injEq] at read
      obtain ⟨rfl, rfl⟩ := read
      rfl
  | cons finding later ih =>
      cases finding with
      | fault line problem => simp [Parse.through] at read
      | token token =>
          simp only [Parse.through] at read
          cases stepped : reader.parse.step table token with
          | mk outcome between =>
              rw [stepped] at read
              cases outcome with
              | error problem => simp at read
              | ok following =>
                  simp only [advance, stepped]
                  exact ih { reader with parse := following } read

theorem advance_of_refusal (reader : Reader) {table : SymbolTable} {findings : List Finding}
    (refused : reader.parse.through table findings = none) :
    ∃ data error, (reader.advance table findings).1.replies =
      reader.replies ++ [⟨data, some error⟩] := by
  induction findings generalizing reader table with
  | nil => simp [Parse.through] at refused
  | cons finding later ih =>
      cases finding with
      | fault line problem => exact ⟨_, _, rfl⟩
      | token token =>
          simp only [Parse.through] at refused
          cases stepped : reader.parse.step table token with
          | mk outcome between =>
              rw [stepped] at refused
              cases outcome with
              | error problem =>
                  simp only [advance, stepped]
                  exact ⟨_, _, rfl⟩
              | ok following =>
                  simp only [advance, stepped]
                  exact ih { reader with parse := following } refused

theorem unwind_eq (parse : Parse) (forms : List OpenForm) :
    parse.unwind forms = { parse with forms := [], inComment := false } := by
  induction forms generalizing parse with
  | nil => rfl
  | cons form outer ih => exact ih { parse with forms := outer }

/-- Of the earlier text nothing is left: a reader that restarts is a new one. -/
theorem restart_eq (reader : Reader) (table : SymbolTable) (text : String) :
    reader.restart table text = { start with stopped := reader.stopped }.feed table text := by
  rw [restart, unwind_eq]
  rfl

theorem settle_stopped (reader : Reader) : reader.settle.stopped = reader.stopped := by
  unfold settle
  split
  · split <;> rfl
  · rfl

theorem advance_stopped (reader : Reader) (table : SymbolTable) (findings : List Finding) :
    (reader.advance table findings).1.stopped = reader.stopped := by
  induction findings generalizing reader table with
  | nil => exact settle_stopped _
  | cons finding later ih =>
      cases finding with
      | fault line problem => rfl
      | token token =>
          simp only [advance]
          split
          · exact ih _ _
          · rfl

theorem feed_stopped (reader : Reader) (table : SymbolTable) (text : String) :
    (reader.feed table text).1.stopped = reader.stopped := by
  rw [feed, advance_stopped]

theorem restart_stopped (reader : Reader) (table : SymbolTable) (text : String) :
    (reader.restart table text).1.stopped = reader.stopped := by
  rw [restart_eq]
  exact feed_stopped _ table text

theorem collect_stopped (reader : Reader) : reader.collect.2.stopped = reader.stopped := by
  unfold collect
  split
  · rfl
  · rfl

end Reader

end StackLisp
