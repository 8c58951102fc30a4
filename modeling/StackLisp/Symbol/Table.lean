import Std.Data.TreeMap
import StackLisp.Symbol
import StackLisp.Text.Numeral

/-!
The symbol table. A name keeps the number that it was given when it was first met, and numbers are
given in order from zero, as words of 32 bits. Fresh names are found by counting on until a name is
not in the table.
-/

namespace StackLisp

/-- The known names, by their numbers and the other way round. -/
structure SymbolTable where
  names : Array String
  numbers : Std.TreeMap String UInt32
  deriving Inhabited

namespace SymbolTable

def empty : SymbolTable := ⟨#[], ∅⟩

def size (table : SymbolTable) : Nat := table.names.size

def idOf? (table : SymbolTable) (name : String) : Option Nat :=
  table.numbers[name]?.map UInt32.toNat

def nameOf? (table : SymbolTable) (id : Nat) : Option String := table.names[id]?

/-- The table with one more name, whose number is cut to 32 bits. -/
def enter (table : SymbolTable) (name : String) : SymbolTable :=
  ⟨table.names.push name, table.numbers.insert name (UInt32.ofNat table.size)⟩

/-- The number of a name, which enters the table if it is new. -/
def intern (table : SymbolTable) (name : String) : Nat × SymbolTable :=
  match table.idOf? name with
  | some id => (id, table)
  | none => ((UInt32.ofNat table.size).toNat, table.enter name)

def symbol (table : SymbolTable) (name : String) : Symbol × SymbolTable :=
  let (id, table) := table.intern name
  (⟨name, id, false⟩, table)

def freshName (stem : String) (count : Nat) : String := stem ++ "__" ++ decimalText count

/-- The first count at or after `count` whose name is not in the table, looking at `fuel` counts. -/
def freshCount (table : SymbolTable) (stem : String) : Nat → Nat → Nat
  | 0, count => count
  | fuel + 1, count =>
    match table.idOf? (freshName stem count) with
    | none => count
    | some _ => freshCount table stem fuel (count + 1)

/-- A symbol with a new name, and the count from which the next search starts. A table in which `n`
names have numbers holds at most `n` of the names looked at, so `n` steps over taken names are
enough. -/
def fresh (table : SymbolTable) (stem : String) (count : Nat) : Symbol × Nat × SymbolTable :=
  let found := table.freshCount stem table.numbers.size count
  let (symbol, table) := table.symbol (freshName stem found)
  (symbol, found + 1, table)

end SymbolTable

end StackLisp
