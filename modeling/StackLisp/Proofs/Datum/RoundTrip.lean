import StackLisp.Proofs.Datum.Leaf
import StackLisp.Proofs.Reader.Schedule

/-!
Data that are printed and read again. The text of a datum, in front of anything that can stand
behind a datum, leads any parse that waits for one to where the datum itself would have led it.
-/

namespace StackLisp

mutual

def Datum.allFinite : Datum → Bool
  | .float x => x.isFinite
  | .pair head tail => head.allFinite && tail.allFinite
  | .array items => Datum.eachFinite items
  | _ => true

def Datum.eachFinite : List Datum → Bool
  | [] => true
  | item :: later => item.allFinite && Datum.eachFinite later

end

theorem Datum.eachFinite_iff (items : List Datum) :
    Datum.eachFinite items = true ↔ ∀ item ∈ items, item.allFinite = true := by
  induction items with
  | nil => simp [Datum.eachFinite]
  | cons item later ih => simp [Datum.eachFinite, ih]

namespace Parse

def readOn (state : Parse × SymbolTable) (line : Nat) (text : List Char) :
    Option (Parse × SymbolTable) :=
  state.1.through state.2 ((Scan.idleAt line).run text).2

variable {parse : Parse} {table : SymbolTable} {line : Nat}

theorem readOn_blank (state : Parse × SymbolTable) (rest : List Char) :
    readOn state line (' ' :: rest) = readOn state line rest := by
  have blank : (Scan.idleAt line).step ' ' = (Scan.idleAt line, []) := by
    simp [Scan.step, Scan.idleAt, Scan.ordinary, Scan.afterAtom, Scan.punctuation?, isBlank,
      Scan.passed]
  rw [readOn, Scan.run_of_silent blank]
  rfl

theorem readOn_mark {next : Parse} {after : SymbolTable} {c : Char} {kind : TokenKind}
    (stepped : ∀ line, (Scan.idleAt line).step c =
      (Scan.idleAt line, [.token ⟨kind, String.ofList [c], line⟩]))
    (read : parse.step table ⟨kind, String.ofList [c], line⟩ = (.ok next, after))
    (rest : List Char) :
    readOn (parse, table) line (c :: rest) = readOn (next, after) line rest := by
  rw [readOn, Scan.run_of_step (stepped line)]
  simp only [List.cons_append, List.nil_append, through, read]
  rfl

theorem readOn_word {word : String} {datum : Datum} (spelled : Spelled table word datum)
    (awaits : parse.Awaits) {c : Char} (closer : isCloser c = true) (rest : List Char) :
    readOn (parse, table) line (word.toList ++ c :: rest) =
      readOn (parse.finish table datum parse.forms) line (c :: rest) := by
  obtain ⟨kind, text, spells, read⟩ := spelled
  rw [readOn, spells line c rest closer]
  simp only [through, read parse line awaits, complete]
  rfl

theorem step_openParen (line : Nat) : (Scan.idleAt line).step '(' =
    (Scan.idleAt line, [.token ⟨.openParen, String.ofList ['('], line⟩]) := by
  simp [Scan.step, Scan.idleAt, Scan.ordinary, Scan.afterAtom, Scan.punctuation?, Scan.found]

theorem step_closeParen (line : Nat) : (Scan.idleAt line).step ')' =
    (Scan.idleAt line, [.token ⟨.closeParen, String.ofList [')'], line⟩]) := by
  simp [Scan.step, Scan.idleAt, Scan.ordinary, Scan.afterAtom, Scan.punctuation?, Scan.found]

theorem step_openSquare (line : Nat) : (Scan.idleAt line).step '[' =
    (Scan.idleAt line, [.token ⟨.openSquare, String.ofList ['['], line⟩]) := by
  simp [Scan.step, Scan.idleAt, Scan.ordinary, Scan.afterAtom, Scan.punctuation?, Scan.found]

theorem step_closeSquare (line : Nat) : (Scan.idleAt line).step ']' =
    (Scan.idleAt line, [.token ⟨.closeSquare, String.ofList [']'], line⟩]) := by
  simp [Scan.step, Scan.idleAt, Scan.ordinary, Scan.afterAtom, Scan.punctuation?, Scan.found]

theorem step_backslash (line : Nat) : (Scan.idleAt line).step '\\' =
    (Scan.idleAt line, [.token ⟨.backslash, String.ofList ['\\'], line⟩]) := by
  simp [Scan.step, Scan.idleAt, Scan.ordinary, Scan.punctuation?, Scan.found, isBlank,
    Scan.openingMark]

theorem readOn_openParen (awaits : parse.Awaits) (rest : List Char) :
    readOn (parse, table) line ('(' :: rest) =
      readOn (parse.enter (.list []), table) line rest :=
  readOn_mark step_openParen (step_of_startsDatum awaits rfl) rest

theorem readOn_openSquare (awaits : parse.Awaits) (rest : List Char) :
    readOn (parse, table) line ('[' :: rest) =
      readOn (parse.enter (.array []), table) line rest :=
  readOn_mark step_openSquare (step_of_startsDatum awaits rfl) rest

variable {items : List Datum} {last : Datum} {outer : List OpenForm}

theorem readOn_closeList (outside : parse.inComment = false)
    (forms : parse.forms = .list items :: outer) (rest : List Char) :
    readOn (parse, table) line (')' :: rest) =
      readOn (parse.finish table (.list items.reverse) outer) line rest := by
  refine readOn_mark step_closeParen ?_ rest
  simp [step, skips?, outside, meet, forms, complete]

theorem readOn_closeDotted (outside : parse.inComment = false)
    (forms : parse.forms = .closing items last :: outer) (rest : List Char) :
    readOn (parse, table) line (')' :: rest) =
      readOn (parse.finish table (.listWithTail items.reverse last) outer) line rest := by
  refine readOn_mark step_closeParen ?_ rest
  simp [step, skips?, outside, meet, forms, complete]

theorem readOn_closeArray (outside : parse.inComment = false)
    (forms : parse.forms = .array items :: outer) (rest : List Char) :
    readOn (parse, table) line (']' :: rest) =
      readOn (parse.finish table (.array items.reverse) outer) line rest := by
  refine readOn_mark step_closeSquare ?_ rest
  simp [step, skips?, outside, meet, forms, complete]

theorem readOn_backslash (outside : parse.inComment = false)
    (forms : parse.forms = .list items :: outer) (nonempty : items ≠ []) (rest : List Char) :
    readOn (parse, table) line ('\\' :: rest) =
      readOn ({ parse with forms := .tail items :: outer }, table) line rest := by
  refine readOn_mark step_backslash ?_ rest
  simp [step, skips?, outside, meet, forms, nonempty]

theorem finish_forms (parse : Parse) (forms : List OpenForm) (table : SymbolTable)
    (datum : Datum) (outer : List OpenForm) :
    ({ parse with forms }).finish table datum outer = parse.finish table datum outer := by
  induction outer generalizing table datum with
  | nil => rfl
  | cons form outer ih =>
      cases form with
      | wrap head => exact ih _ _
      | _ => rfl

end Parse

open Parse Outline

structure Datum.ReadsBack (table : SymbolTable) (datum : Datum) : Prop where
  item : ∀ (parse : Parse) line c rest, parse.Awaits → isCloser c = true →
    readOn (parse, table) line (charsBefore false datum.outline (c :: rest)) =
      readOn (parse.finish table datum parse.forms) line (c :: rest)
  tail : ∀ (parse : Parse) line items outer rest, parse.inComment = false →
    parse.forms = .list items :: outer → items ≠ [] →
    readOn (parse, table) line (charsBefore true datum.outline rest) =
      readOn (parse.finish table (.listWithTail items.reverse datum) outer) line rest

theorem awaits_of_forms {parse : Parse} {form : OpenForm} {outer : List OpenForm}
    (outside : parse.inComment = false) (forms : parse.forms = form :: outer)
    (open' : ∀ items last, form ≠ .closing items last) : parse.Awaits := by
  refine ⟨outside, ?_⟩
  cases form with
  | closing items last => exact absurd rfl (open' items last)
  | _ => simp [keepsRefused, forms]

theorem tail_of_item {table : SymbolTable} {datum : Datum}
    (dotted : ∀ rest, charsBefore true datum.outline rest =
      ' ' :: '\\' :: ' ' :: charsBefore false datum.outline (')' :: rest))
    (item : ∀ (parse : Parse) line c rest, parse.Awaits → isCloser c = true →
      readOn (parse, table) line (charsBefore false datum.outline (c :: rest)) =
        readOn (parse.finish table datum parse.forms) line (c :: rest)) :
    datum.ReadsBack table := by
  refine ⟨item, ?_⟩
  intro parse line items outer rest outside forms nonempty
  have awaits : ({ parse with forms := .tail items :: outer } : Parse).Awaits :=
    awaits_of_forms outside rfl (by simp)
  rw [dotted, readOn_blank, readOn_backslash outside forms nonempty, readOn_blank,
    item _ line ')' rest awaits (by decide)]
  simp only [finish]
  rw [readOn_closeDotted (by exact outside) rfl, finish_forms]

theorem readsBack_of_spelled {table : SymbolTable} {datum : Datum} {word : String}
    (leaf : datum.outline = .leaf word) (spelled : Spelled table word datum) :
    datum.ReadsBack table := by
  apply tail_of_item
  · intro rest
    simp [leaf, charsBefore, inTail]
  · intro parse line c rest awaits closer
    simp only [leaf, charsBefore, inTail]
    exact readOn_word spelled awaits closer rest

theorem readsBack_nil (table : SymbolTable) : Datum.nil.ReadsBack table := by
  constructor
  · intro parse line c rest awaits closer
    exact readOn_word (spelled_nil table) awaits closer rest
  · intro parse line items outer rest outside forms _
    exact readOn_closeList outside forms rest

theorem charsBefore_true_closer (outline : Outline) (rest : List Char) :
    ∃ c more, charsBefore true outline rest = c :: more ∧ isCloser c = true := by
  cases outline with
  | nil => exact ⟨')', rest, rfl, rfl⟩
  | _ => exact ⟨' ', _, rfl, rfl⟩

theorem readsBack_pair {table : SymbolTable} {head tail : Datum}
    (first : head.ReadsBack table) (others : tail.ReadsBack table) :
    (Datum.pair head tail).ReadsBack table := by
  have elements {parse : Parse} {line : Nat} {items : List Datum} {outer : List OpenForm}
      (rest : List Char) (outside : parse.inComment = false)
      (forms : parse.forms = .list items :: outer) :
      readOn (parse, table) line
          (charsBefore false head.outline (charsBefore true tail.outline rest)) =
        readOn (parse.finish table (.listWithTail items.reverse (.pair head tail)) outer)
          line rest := by
    have awaits : parse.Awaits := awaits_of_forms outside forms (by simp)
    obtain ⟨c, more, chars, closer⟩ := charsBefore_true_closer tail.outline rest
    rw [chars, first.item parse line c more awaits closer, forms, ← chars]
    simp only [finish]
    rw [others.tail _ line (head :: items) outer rest (by exact outside) rfl (by simp),
      finish_forms]
    simp [Datum.listWithTail]
  constructor
  · intro parse line c rest awaits closer
    simp only [Datum.outline, charsBefore, Bool.false_eq_true, ↓reduceIte]
    have outside : (parse.enter (.list [])).inComment = false := awaits.outside
    rw [readOn_openParen awaits, elements (c :: rest) outside rfl, enter, finish_forms]
    rfl
  · intro parse line items outer rest outside forms _
    simp only [Datum.outline, charsBefore, ↓reduceIte]
    rw [readOn_blank, elements rest outside forms]

theorem readOn_items {table : SymbolTable} {line : Nat} {items : List Datum}
    (each : ∀ item ∈ items, item.ReadsBack table) {parse : Parse} {done : List Datum}
    {outer : List OpenForm} (spaced : Bool) (rest : List Char)
    (outside : parse.inComment = false) (forms : parse.forms = .array done :: outer) :
    readOn (parse, table) line (itemsBefore spaced (Datum.outlines items) (']' :: rest)) =
      readOn (parse.finish table (.array (done.reverse ++ items)) outer) line rest := by
  induction items generalizing parse done spaced with
  | nil =>
      simp only [Datum.outlines, itemsBefore, List.append_nil]
      exact readOn_closeArray outside forms rest
  | cons item later ih =>
      have awaits : parse.Awaits := awaits_of_forms outside forms (by simp)
      have followed : ∃ c more, itemsBefore true (Datum.outlines later) (']' :: rest) = c :: more ∧
          isCloser c = true := by
        cases later with
        | nil => exact ⟨']', rest, rfl, rfl⟩
        | cons next others => exact ⟨' ', _, rfl, rfl⟩
      obtain ⟨c, more, chars, closer⟩ := followed
      have unspaced : readOn (parse, table) line
          (itemsBefore spaced (Datum.outlines (item :: later)) (']' :: rest)) =
          readOn (parse, table) line (charsBefore false item.outline
            (itemsBefore true (Datum.outlines later) (']' :: rest))) := by
        cases spaced with
        | false => rfl
        | true => exact readOn_blank _ _
      rw [unspaced, chars, (each item (by simp)).item parse line c more awaits closer, forms,
        ← chars]
      simp only [finish]
      rw [ih (fun other member => each other (by simp [member])) true (by exact outside) rfl,
        finish_forms]
      simp

theorem readsBack_array {table : SymbolTable} {items : List Datum}
    (each : ∀ item ∈ items, item.ReadsBack table) : (Datum.array items).ReadsBack table := by
  apply tail_of_item
  · intro rest
    simp [Datum.outline, charsBefore, inTail]
  · intro parse line c rest awaits closer
    simp only [Datum.outline, charsBefore, inTail, Bool.false_eq_true, ↓reduceIte]
    have outside : (parse.enter (.array [])).inComment = false := awaits.outside
    rw [readOn_openSquare awaits, readOn_items each false (c :: rest) outside rfl, enter,
      finish_forms]
    rfl

theorem Datum.Legible.readsBack {table : SymbolTable} {datum : Datum}
    (legible : datum.Legible table) (finite : datum.allFinite = true) :
    datum.ReadsBack table := by
  induction legible with
  | nil => exact readsBack_nil table
  | int n => exact readsBack_of_spelled rfl (spelled_int table n)
  | uint n => exact readsBack_of_spelled rfl (spelled_uint table n)
  | float x => exact readsBack_of_spelled rfl (spelled_float table (by simpa [allFinite] using finite))
  | char c => exact readsBack_of_spelled rfl (spelled_char table c)
  | bool b => exact readsBack_of_spelled rfl (spelled_bool table b)
  | text s => exact readsBack_of_spelled rfl (spelled_text table s)
  | symbol known => exact readsBack_of_spelled rfl (spelled_symbol known)
  | pair _ _ first others =>
      rw [allFinite, Bool.and_eq_true] at finite
      exact readsBack_pair (first finite.1) (others finite.2)
  | array _ each =>
      rw [allFinite, eachFinite_iff] at finite
      exact readsBack_array fun item member => each item member (finite item member)

/-! The text of data in a row. -/

namespace Outline

mutual

theorem charsBefore_append (tail : Bool) (outline : Outline) (rest : List Char) :
    charsBefore tail outline rest = charsBefore tail outline [] ++ rest := by
  match outline with
  | .nil => cases tail <;> rfl
  | .leaf word => cases tail <;> simp [charsBefore, inTail]
  | .elided word => cases tail <;> simp [charsBefore, inTail]
  | .pair head others =>
      rw [charsBefore, charsBefore, charsBefore_append true others rest,
        charsBefore_append false head, charsBefore_append false head (charsBefore true others [])]
      simp
  | .array items =>
      cases tail <;> simp only [charsBefore, inTail, Bool.false_eq_true, ↓reduceIte]
      · rw [itemsBefore_append false items, itemsBefore_append false items [']']]
        simp
      · rw [itemsBefore_append false items, itemsBefore_append false items (']' :: [')'])]
        simp
  | .form word items =>
      cases tail <;> simp only [charsBefore, inTail, Bool.false_eq_true, ↓reduceIte]
      · rw [itemsBefore_append true items, itemsBefore_append true items [')']]
        simp
      · rw [itemsBefore_append true items, itemsBefore_append true items (')' :: [')'])]
        simp

theorem itemsBefore_append (spaced : Bool) (items : List Outline) (rest : List Char) :
    itemsBefore spaced items rest = itemsBefore spaced items [] ++ rest := by
  match items with
  | [] => rfl
  | item :: later =>
      simp only [itemsBefore]
      rw [itemsBefore_append true later rest, charsBefore_append false item,
        charsBefore_append false item (itemsBefore true later [])]
      cases spaced <;> simp

end

end Outline

def printed (data : List Datum) : String :=
  String.intercalate " " (data.map Datum.toText) ++ "\n"

theorem printed_chars (data : List Datum) :
    (printed data).toList = itemsBefore false (Datum.outlines data) ['\n'] := by
  have joined : ∀ data : List Datum,
      (String.intercalate " " (data.map Datum.toText)).toList =
        itemsBefore false (Datum.outlines data) [] := by
    intro data
    induction data with
    | nil => simp [Datum.outlines, itemsBefore]
    | cons first later ih =>
        cases later with
        | nil => simp [Datum.outlines, itemsBefore, Datum.toText, Outline.text]
        | cons next others =>
            rw [List.map_cons, List.map_cons, String.intercalate_cons_cons, ← List.map_cons,
              String.toList_append, ih]
            simp only [Datum.outlines, itemsBefore, Bool.false_eq_true, ↓reduceIte]
            rw [charsBefore_append false first.outline]
            simp [Datum.toText, Outline.text]
  rw [printed, String.toList_append, joined, itemsBefore_append false _ ['\n']]
  rfl

theorem readOn_printed {table : SymbolTable} (line : Nat) {data : List Datum}
    (each : ∀ datum ∈ data, datum.ReadsBack table) (spaced : Bool) (finished : List Datum) :
    readOn (⟨[], false, finished⟩, table) line (itemsBefore spaced (Datum.outlines data) ['\n']) =
      some (⟨[], false, data.reverse ++ finished⟩, table) := by
  induction data generalizing spaced finished with
  | nil =>
      have newline : ((Scan.idleAt line).run ['\n']).2 = [] := by
        simp [Scan.run, Scan.step, Scan.idleAt, Scan.ordinary, Scan.afterAtom,
          Scan.punctuation?, isBlank]
      simp only [readOn, Datum.outlines, itemsBefore, newline]
      rfl
  | cons first later ih =>
      have awaits : (⟨[], false, finished⟩ : Parse).Awaits := ⟨rfl, rfl⟩
      obtain ⟨c, more, chars, closer⟩ : ∃ c more,
          itemsBefore true (Datum.outlines later) ['\n'] = c :: more ∧ isCloser c = true := by
        cases later with
        | nil => exact ⟨'\n', [], rfl, rfl⟩
        | cons next others => exact ⟨' ', _, rfl, rfl⟩
      have unspaced : readOn (⟨[], false, finished⟩, table) line
          (itemsBefore spaced (Datum.outlines (first :: later)) ['\n']) =
          readOn (⟨[], false, finished⟩, table) line (charsBefore false first.outline
            (itemsBefore true (Datum.outlines later) ['\n'])) := by
        cases spaced with
        | false => rfl
        | true => exact readOn_blank _ _
      rw [unspaced, chars, (each first (by simp)).item _ line c more awaits closer, ← chars]
      simp only [finish]
      rw [ih (fun datum member => each datum (by simp [member]))]
      simp

/-- Data that were read from a text, printed as one line, are read from that line again, and no
name enters the symbol table. -/
theorem Reader.feed_printed {table : SymbolTable} {text : String} {data : List Datum}
    (whole : (start.feed table text).1.collect.1 = (data, none))
    (finite : ∀ datum ∈ data, datum.allFinite = true) :
    (start.feed (start.feed table text).2 (printed data)).1.collect.1 = (data, none) ∧
      (start.feed (start.feed table text).2 (printed data)).2 = (start.feed table text).2 := by
  obtain ⟨parse, read, _, rfl⟩ := through_of_whole whole
  generalize (start.feed table text).2 = known at read ⊢
  have sound := (Scan.run_outcome Scan.start_sound text.toList).2
  have legible : AllLegible known parse.finished.reverse :=
    (through_grows (legible_empty table) sound read).2.finished.reverse
  have back := readOn_printed 1 (fun datum member =>
    (legible datum member).readsBack (finite datum member)) false []
  rw [← printed_chars, List.append_nil] at back
  have again := collect_of_through (printed parse.finished.reverse) back rfl
  rwa [List.reverse_reverse] at again

theorem Reader.feed_printed_dotted :
    let data := [.pair (.symbol ⟨"a", 0, false⟩) (.array [.symbol ⟨"k", 1, true⟩, .char '\n']),
      .list [.symbol ⟨"quote", 2, false⟩, .text "q\n"]]
    (start.feed .empty "(a \\ [k: #newline]) %\"q\\n\"\n").1.collect.1 = (data, none) ∧
      (start.feed (start.feed .empty "(a \\ [k: #newline]) %\"q\\n\"\n").2
        (printed data)).1.collect.1 = (data, none) := by
  have whole : (start.feed .empty "(a \\ [k: #newline]) %\"q\\n\"\n").1.collect.1 =
      ([.pair (.symbol ⟨"a", 0, false⟩) (.array [.symbol ⟨"k", 1, true⟩, .char '\n']),
        .list [.symbol ⟨"quote", 2, false⟩, .text "q\n"]], none) := by cbv
  exact ⟨whole, (feed_printed whole (by simp [Datum.allFinite, Datum.eachFinite, Datum.list,
    Datum.listWithTail])).1⟩

end StackLisp
