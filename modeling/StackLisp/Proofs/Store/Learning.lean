import StackLisp.Proofs.Symbol.Naming
import StackLisp.Store.Binding

/-!
Stores that learn names and stay as they are otherwise. To look something up, by a symbol or along a
path, does no more to a store.
-/

namespace StackLisp.Store

structure Learns (store later : Store) : Prop where
  names : store.symbols.Grown later.symbols
  rest : later = { store with symbols := later.symbols }

theorem Learns.trans {store between later : Store} (first : store.Learns between)
    (second : between.Learns later) : store.Learns later := by
  refine ⟨first.names.trans second.names, ?_⟩
  rw [second.rest, first.rest]

variable (store : Store)

theorem Learns.refl : store.Learns store := ⟨.refl, rfl⟩

theorem intern_learns (name : String) : store.Learns (store.intern name).2 :=
  ⟨store.symbols.grown_symbol name, rfl⟩

theorem intern_again {later : Store} {name : String}
    (grown : (store.intern name).2.symbols.Grown later.symbols) :
    later.intern name = ((store.intern name).1, later) := by
  have known := grown.extends _ _ (store.symbols.idOf?_intern name)
  rw [intern, SymbolTable.symbol_of_known known]
  rfl

theorem stepInto_learns (path field : String) (value : Value) :
    store.Learns (store.stepInto path field value).2 := by
  unfold stepInto
  split
  · dsimp only
    split
    · exact store.intern_learns field
    · exact store.intern_learns field
    · exact store.intern_learns field
  · exact .refl store

theorem follow_learns (path : String) (value : Value) (fields : List String) :
    store.Learns (store.follow path value fields).2 := by
  induction fields generalizing store value with
  | nil => exact .refl store
  | cons field later ih =>
      have step := store.stepInto_learns path field value
      unfold follow
      split
      next found next reached =>
        rw [reached] at step
        exact step.trans (ih next found)
      next error next failed =>
        rw [failed] at step
        exact step

theorem lookupPath_learns (scopes : List ScopeRef) (captures : List Capture) (path : String)
    (parts : List String) : store.Learns (store.lookupPath scopes captures path parts).2 := by
  unfold lookupPath
  split
  · exact .refl store
  next first fields =>
    dsimp only
    split
    · exact (store.intern_learns first).trans (follow_learns _ path _ fields)
    · exact store.intern_learns first

theorem lookup_learns (scopes : List ScopeRef) (captures : List Capture) (symbol : Symbol) :
    store.Learns (store.lookup scopes captures symbol).2 := by
  unfold lookup
  split
  · exact store.lookupPath_learns scopes captures _ _
  · exact .refl store

end StackLisp.Store
