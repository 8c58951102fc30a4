import Mathlib.Data.List.Nodup
import Mathlib.Data.List.Perm.Subperm
import StackLisp.Datum.Reader
import StackLisp.Proofs.Number.Numeral
import StackLisp.Proofs.Symbol.Table

/-!
How a symbol table comes about. Names enter it one after the other and nothing else happens to it, so
its two maps stay inverse to each other as long as no number is cut. The search for a fresh name looks
at names that differ from one another, and a table that holds `n` names cannot hold the first `n + 1` of
them.
-/

namespace StackLisp

namespace SymbolTable

inductive Grown (table : SymbolTable) : SymbolTable → Prop
  | refl : Grown table table
  | intern {later : SymbolTable} (name : String) :
    Grown table later → Grown table (later.intern name).2

theorem Grown.trans {table later last : SymbolTable} (first : table.Grown later)
    (second : later.Grown last) : table.Grown last := by
  induction second with
  | refl => exact first
  | intern name _ ih => exact ih.intern name

theorem grown_intern (table : SymbolTable) (name : String) : table.Grown (table.intern name).2 :=
  Grown.refl.intern name

theorem grown_symbol (table : SymbolTable) (name : String) : table.Grown (table.symbol name).2 :=
  table.grown_intern name

theorem Grown.extends {table later : SymbolTable} (grown : table.Grown later) :
    later.Extends table := by
  induction grown with
  | refl => exact .refl table
  | intern name _ ih => exact (intern_extends _ name).trans ih

theorem idOf?_eq_none {table : SymbolTable} {name : String} :
    table.idOf? name = none ↔ name ∉ table.numbers := by simp [idOf?]

theorem size_enter (table : SymbolTable) (name : String) : (table.enter name).size = table.size + 1 :=
  Array.size_push _

theorem nameOf?_enter (table : SymbolTable) (name : String) (id : Nat) :
    (table.enter name).nameOf? id = if id = table.size then some name else table.nameOf? id :=
  Array.getElem?_push

theorem nameOf?_isSome {table : SymbolTable} {id : Nat} :
    (table.nameOf? id).isSome ↔ id < table.size := by simp [nameOf?, size]

theorem next_eq {table : SymbolTable} (few : table.size < 2 ^ 32) :
    (UInt32.ofNat table.size).toNat = table.size := UInt32.toNat_ofNat_of_lt' few

theorem size_intern (table : SymbolTable) (name : String) :
    table.size ≤ (table.intern name).2.size := by
  unfold intern
  split
  · exact Nat.le_refl _
  · exact (size_enter table name).symm ▸ Nat.le_succ _

theorem size_intern_le (table : SymbolTable) (name : String) :
    (table.intern name).2.size ≤ table.size + 1 := by
  unfold intern
  split
  · exact Nat.le_succ _
  · exact (size_enter table name).le

theorem Grown.size_le {table later : SymbolTable} (grown : table.Grown later) :
    table.size ≤ later.size := by
  induction grown with
  | refl => exact Nat.le_refl _
  | intern name _ ih => exact ih.trans (size_intern _ name)

/-! The two maps. -/

def Counted (table : SymbolTable) : Prop := table.numbers.size = table.size

def Inverse (table : SymbolTable) : Prop :=
  ∀ name id, table.idOf? name = some id ↔ table.nameOf? id = some name

theorem counted_empty : empty.Counted := rfl

theorem inverse_empty : empty.Inverse := by
  intro name id
  simp [empty, idOf?, nameOf?]

theorem Counted.intern {table : SymbolTable} (counted : table.Counted) (name : String) :
    (table.intern name).2.Counted := by
  cases met : table.idOf? name with
  | some id => rwa [intern_of_known met]
  | none =>
      have unknown : ¬(table.numbers.contains name = true) := by simpa [idOf?] using met
      rw [intern_of_unknown met, Counted, size_enter, enter, Std.TreeMap.size_insert, if_neg unknown,
        counted]

theorem Inverse.idOf?_lt {table : SymbolTable} (inverse : table.Inverse) {name : String} {id : Nat}
    (known : table.idOf? name = some id) : id < table.size := by
  rw [← nameOf?_isSome, (inverse name id).mp known]
  rfl

theorem Inverse.enter {table : SymbolTable} (inverse : table.Inverse) {name : String}
    (unknown : table.idOf? name = none) (few : table.size < 2 ^ 32) :
    (table.enter name).Inverse := by
  intro other id
  rw [idOf?_enter, nameOf?_enter, next_eq few]
  by_cases last : id = table.size
  · have unnamed : table.nameOf? table.size = none := by simp [nameOf?, size]
    by_cases same : name = other
    · simp [last, same]
    · simp [last, same, inverse other table.size, unnamed]
  · by_cases same : name = other
    · subst same
      simp [last, ← inverse name id, unknown, Ne.symm last]
    · simp [last, same, inverse other id]

theorem Inverse.intern {table : SymbolTable} (inverse : table.Inverse) (name : String)
    (few : (table.intern name).2.size ≤ 2 ^ 32) : (table.intern name).2.Inverse := by
  cases met : table.idOf? name with
  | some id => rwa [intern_of_known met]
  | none =>
      rw [intern_of_unknown met, size_enter] at few
      rw [intern_of_unknown met]
      exact inverse.enter met few

theorem Grown.counted {table later : SymbolTable} (grown : table.Grown later)
    (counted : table.Counted) : later.Counted := by
  induction grown with
  | refl => exact counted
  | intern name _ ih => exact ih.intern name

theorem Grown.inverse {table later : SymbolTable} (grown : table.Grown later)
    (inverse : table.Inverse) (few : later.size ≤ 2 ^ 32) : later.Inverse := by
  induction grown with
  | refl => exact inverse
  | intern name _ ih => exact (ih ((size_intern _ name).trans few)).intern name few

def ofNames (names : List String) : SymbolTable :=
  names.foldl (fun table name => (table.intern name).2) empty

/-! Fresh names. -/

theorem decimalText_injective {left right : Nat} (same : decimalText left = decimalText right) :
    left = right := by
  have digits : numeral 10 left = numeral 10 right := by
    simpa [decimalText] using congrArg String.toList same
  calc left = numeralValue 10 (numeral 10 left) :=
        (numeralValue_numeral 10 (by decide) (by decide) left).symm
    _ = numeralValue 10 (numeral 10 right) := by rw [digits]
    _ = right := numeralValue_numeral 10 (by decide) (by decide) right

/-- Whatever the stem looks like, different counts make different names. -/
theorem freshName_injective {stem : String} {left right : Nat}
    (same : freshName stem left = freshName stem right) : left = right := by
  have texts : (stem ++ "__").toList ++ (decimalText left).toList =
      (stem ++ "__").toList ++ (decimalText right).toList := by
    simpa [freshName] using congrArg String.toList same
  exact decimalText_injective (String.toList_inj.mp (List.append_cancel_left texts))

section Search

variable (table : SymbolTable) (stem : String)

theorem freshCount_le (fuel count : Nat) : table.freshCount stem fuel count ≤ count + fuel := by
  induction fuel generalizing count with
  | zero => exact Nat.le_refl _
  | succ fuel ih =>
      unfold freshCount
      have further := ih (count + 1)
      split <;> omega

theorem freshCount_taken (fuel count : Nat) :
    count ≤ table.freshCount stem fuel count ∧
      ∀ taken, count ≤ taken → taken < table.freshCount stem fuel count →
        freshName stem taken ∈ table.numbers := by
  induction fuel generalizing count with
  | zero =>
      refine ⟨Nat.le_refl _, fun taken above below => ?_⟩
      unfold freshCount at below
      omega
  | succ fuel ih =>
      obtain ⟨above, past⟩ := ih (count + 1)
      cases met : table.idOf? (freshName stem count) with
      | none =>
          simp only [freshCount, met]
          exact ⟨Nat.le_refl _, fun taken above below => by omega⟩
      | some id =>
          simp only [freshCount, met]
          refine ⟨by omega, fun taken from_ below => ?_⟩
          by_cases first : taken = count
          · have known : table.idOf? (freshName stem taken) ≠ none := by simp [first, met]
            simpa [idOf?_eq_none] using known
          · exact past taken (by omega) below

theorem freshCount_new {fuel count : Nat}
    (early : table.freshCount stem fuel count < count + fuel) :
    table.idOf? (freshName stem (table.freshCount stem fuel count)) = none := by
  induction fuel generalizing count with
  | zero =>
      unfold freshCount at early
      omega
  | succ fuel ih =>
      cases met : table.idOf? (freshName stem count) with
      | none => simp only [freshCount, met]
      | some id =>
          simp only [freshCount, met] at early ⊢
          exact ih (by omega)

theorem freshCount_unknown (count : Nat) :
    table.idOf? (freshName stem (table.freshCount stem table.numbers.size count)) = none := by
  by_contra known
  have bound := freshCount_le table stem table.numbers.size count
  have late : table.freshCount stem table.numbers.size count = count + table.numbers.size := by
    by_contra early
    exact known (freshCount_new table stem (by omega))
  -- Then the names at all counts up to this one are different, and one more than there are.
  let looked := (List.range (table.numbers.size + 1)).map fun offset => freshName stem (count + offset)
  have different : looked.Nodup :=
    List.nodup_range.map fun left right same => by
      have counts := freshName_injective same
      omega
  have taken : looked ⊆ table.numbers.keys := by
    intro name member
    obtain ⟨offset, inRange, rfl⟩ := List.mem_map.mp member
    have below := List.mem_range.mp inRange
    by_cases last : offset = table.numbers.size
    · rw [last, ← late]
      simpa [idOf?_eq_none] using known
    · have past := (freshCount_taken table stem table.numbers.size count).2 (count + offset) (by omega)
        (by omega)
      simpa using past
  have length := (List.Nodup.subperm different taken).length_le
  simp only [looked, List.length_map, List.length_range, Std.TreeMap.length_keys] at length
  omega

theorem fresh_eq (count : Nat) :
    let found := table.freshCount stem table.numbers.size count
    table.fresh stem count =
      (⟨freshName stem found, (UInt32.ofNat table.size).toNat, false⟩, found + 1,
        table.enter (freshName stem found)) := by
  intro found
  have unknown : table.idOf? (freshName stem found) = none := freshCount_unknown table stem count
  simp only [fresh, symbol]
  rw [intern_of_unknown unknown]

theorem grown_fresh (count : Nat) : table.Grown (table.fresh stem count).2.2 :=
  table.grown_symbol _

end Search

end SymbolTable

/-! Reading interns names, and changes nothing else about the table. -/

namespace Parse

open SymbolTable

theorem finish_grown (parse : Parse) (table : SymbolTable) (datum : Datum) (forms : List OpenForm) :
    table.Grown (parse.finish table datum forms).2 := by
  induction forms generalizing table datum with
  | nil => exact .refl
  | cons form outer ih =>
      cases form with
      | wrap head => exact (table.grown_symbol head).trans (ih _ _)
      | _ => exact .refl

theorem complete_grown (parse : Parse) (table : SymbolTable) (datum : Datum)
    (outer : List OpenForm) : table.Grown (parse.complete table datum outer).2 :=
  parse.finish_grown table datum outer

theorem grown_number (table : SymbolTable) (text : String) (read : Option Datum) :
    table.Grown (match read with
      | some datum => (Except.ok datum, table)
      | none => (Except.error (ParseProblem.numberOutOfRange text), table)).2 := by
  cases read with
  | some datum => exact .refl
  | none => exact .refl

theorem atomDatum_grown (table : SymbolTable) (kind : AtomKind) (text : String) :
    table.Grown (atomDatum table kind text).2 := by
  have number := grown_number table text
  unfold atomDatum
  dsimp only
  split
  · split
    · exact .refl
    · exact table.grown_symbol text
  · exact table.grown_symbol text
  · exact table.grown_symbol text
  · exact .refl
  · split
    · exact number _
    · exact number _
  · exact number _
  · exact number _
  · exact number _
  · exact number _
  · exact number _
  · split
    · exact .refl
    · exact .refl

theorem begin_grown (parse : Parse) (table : SymbolTable) (token : Token) :
    table.Grown (parse.begin table token).2 := by
  unfold begin
  split
  case h_8 kind isAtom =>
    have grown := atomDatum_grown table kind token.text
    cases read : atomDatum table kind token.text with
    | mk outcome next =>
        rw [read] at grown
        cases outcome with
        | ok datum => exact grown.trans (complete_grown _ _ _ _)
        | error problem => exact grown
  case h_9 => exact (table.grown_symbol token.text).trans (complete_grown _ _ _ _)
  case h_10 => exact complete_grown _ _ _ _
  all_goals exact .refl

theorem meet_grown (parse : Parse) (table : SymbolTable) (token : Token) :
    table.Grown (parse.meet table token).2 := by
  unfold meet
  split
  · split
    · exact complete_grown _ _ _ _
    · split
      · split
        · exact .refl
        · exact .refl
      · exact begin_grown _ _ _
  · split
    · exact complete_grown _ _ _ _
    · exact .refl
  · split
    · exact complete_grown _ _ _ _
    · exact begin_grown _ _ _
  · split
    · exact (table.grown_symbol "infix").trans (complete_grown _ _ _ _)
    · exact begin_grown _ _ _
  · exact begin_grown _ _ _

theorem step_grown (parse : Parse) (table : SymbolTable) (token : Token) :
    table.Grown (parse.step table token).2 := by
  unfold step
  split
  · exact .refl
  · exact meet_grown _ _ _

end Parse

namespace Reader

open SymbolTable

theorem advance_grown (reader : Reader) (table : SymbolTable) (findings : List Finding) :
    table.Grown (reader.advance table findings).2 := by
  induction findings generalizing reader table with
  | nil => exact .refl
  | cons finding later ih =>
      cases finding with
      | fault line problem => exact .refl
      | token token =>
          have grown := reader.parse.step_grown table token
          simp only [advance]
          split
          next parse between stepped =>
            rw [stepped] at grown
            exact grown.trans (ih _ _)
          next problem between stepped =>
            rw [stepped] at grown
            exact grown

theorem feed_grown (reader : Reader) (table : SymbolTable) (text : String) :
    table.Grown (reader.feed table text).2 := advance_grown _ _ _

theorem restart_grown (reader : Reader) (table : SymbolTable) (text : String) :
    table.Grown (reader.restart table text).2 := feed_grown _ _ _

end Reader

end StackLisp
