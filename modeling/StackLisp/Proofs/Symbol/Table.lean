import StackLisp.Symbol.Table

/-!
The symbol table keeps the number of every name, and a name that it knows changes nothing.
-/

namespace StackLisp.SymbolTable

def Extends (later table : SymbolTable) : Prop :=
  ∀ name id, table.idOf? name = some id → later.idOf? name = some id

theorem Extends.refl (table : SymbolTable) : table.Extends table := fun _ _ known => known

theorem Extends.trans {last later table : SymbolTable} (second : last.Extends later)
    (first : later.Extends table) : last.Extends table :=
  fun name id known => second name id (first name id known)

section Names

variable {table : SymbolTable} {name : String} {id : Nat}

theorem intern_of_known (known : table.idOf? name = some id) : table.intern name = (id, table) := by
  simp [intern, known]

theorem intern_of_unknown (unknown : table.idOf? name = none) :
    table.intern name = ((UInt32.ofNat table.size).toNat, table.enter name) := by
  simp [intern, unknown]

theorem idOf?_enter (table : SymbolTable) (name other : String) :
    (table.enter name).idOf? other =
      if name = other then some (UInt32.ofNat table.size).toNat else table.idOf? other := by
  rw [idOf?, enter, Std.TreeMap.getElem?_insert]
  split
  next same => rw [if_pos (Std.LawfulEqCmp.eq_of_compare same)]; rfl
  next differs => rw [if_neg fun same => differs (Std.ReflCmp.cmp_eq_of_eq same)]; rfl

theorem intern_extends (table : SymbolTable) (name : String) :
    (table.intern name).2.Extends table := by
  intro other id known
  cases met : table.idOf? name with
  | some _ => rwa [intern_of_known met]
  | none =>
      have differs : name ≠ other := by
        rintro rfl
        rw [met] at known
        cases known
      rw [intern_of_unknown met, idOf?_enter, if_neg differs, known]

theorem idOf?_intern (table : SymbolTable) (name : String) :
    (table.intern name).2.idOf? name = some (table.intern name).1 := by
  cases met : table.idOf? name with
  | some _ => rw [intern_of_known met, met]
  | none => rw [intern_of_unknown met, idOf?_enter, if_pos rfl]

theorem symbol_extends (table : SymbolTable) (name : String) :
    (table.symbol name).2.Extends table := intern_extends table name

theorem symbol_of_known (known : table.idOf? name = some id) :
    table.symbol name = (⟨name, id, false⟩, table) := by simp [symbol, intern_of_known known]

end Names

end StackLisp.SymbolTable
