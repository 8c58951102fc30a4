import StackLisp.Proofs.Store.Captured

/-!
What scopes bind: a definition binds one symbol in one scope, and a symbol is looked for at its number
alone.
-/

namespace StackLisp

theorem lookup_binding (bound : Nat) (old : Value) (later : List (Nat × Value)) (id : Nat) :
    ((bound, old) :: later).lookup id = if id = bound then some old else later.lookup id := by
  by_cases met : id = bound
  · simp [met]
  · rw [List.lookup_cons, beq_false_of_ne met, if_neg met]

theorem lookup_insertBinding (id : Nat) (value : Value) (bindings : List (Nat × Value))
    (other : Nat) :
    (insertBinding id value bindings).lookup other =
      if other = id then some value else bindings.lookup other := by
  induction bindings with
  | nil => exact lookup_binding id value [] other
  | cons binding later ih =>
      obtain ⟨bound, old⟩ := binding
      rw [insertBinding]
      split
      next before =>
        simp only [lookup_binding, ih]
        by_cases met : other = bound
        · simp [met, show bound ≠ id by omega]
        · simp [met]
      next notBefore =>
        split
        next replaced =>
          simp only [lookup_binding, replaced]
          by_cases same : other = id <;> simp [same]
        next apart => exact lookup_binding id value _ other

namespace Store

theorem size_define (store : Store) (ref : ScopeRef) (symbol : Symbol) (value : Value) :
    (store.define ref symbol value).scopes.size = store.scopes.size := Array.size_modify

theorem lookup_define (store : Store) (ref : ScopeRef) (symbol : Symbol) (value : Value)
    (seen : ScopeRef) (id : Nat) :
    ((store.define ref symbol value).scope seen).lookup id =
      if (ref = seen ∧ seen < store.scopes.size) ∧ symbol.id = id then some value
      else (store.scope seen).lookup id := by
  have there : (store.define ref symbol value).scope seen =
      if ref = seen ∧ seen < store.scopes.size then (store.scope seen).insert symbol.id value
      else store.scope seen := by
    simp only [scope, define, Array.getD_eq_getD_getElem?, Array.getElem?_modify]
    by_cases inside : seen < store.scopes.size
    · by_cases same : ref = seen <;> simp [same, inside]
    · simp [inside]
  rw [there]
  by_cases here : ref = seen ∧ seen < store.scopes.size
  · rw [if_pos here, Scope.lookup, Scope.insert, lookup_insertBinding]
    simp [here, Scope.lookup, eq_comm]
  · simp [here]

theorem lookup_define_global {store : Store} (hasGlobal : global < store.scopes.size)
    (ref : ScopeRef) (symbol : Symbol) (value : Value) (id : Nat) :
    ((store.define ref symbol value).scope global).lookup id =
      if ref = global ∧ symbol.id = id then some value else (store.scope global).lookup id := by
  simpa [hasGlobal] using store.lookup_define ref symbol value global id

theorem define_shape (store : Store) (ref : ScopeRef) (symbol : Symbol) (value : Value)
    (seen : ScopeRef) :
    ((store.define ref symbol value).scope seen).name = (store.scope seen).name ∧
      ((store.define ref symbol value).scope seen).isCall = (store.scope seen).isCall := by
  simp only [scope, define, Array.getD_eq_getD_getElem?, Array.getElem?_modify]
  by_cases same : ref = seen
  · cases store.scopes[seen]? <;> simp [same, Scope.insert]
  · simp [same]

theorem scope_of_scopes {store later : Store} (same : later.scopes = store.scopes) (ref : ScopeRef) :
    later.scope ref = store.scope ref := by rw [Store.scope, Store.scope, same]

theorem lookup_plain (store : Store) (scopes : List ScopeRef) (captures : List Capture)
    {symbol : Symbol} (noPath : symbol.isPath = false) :
    store.lookup scopes captures symbol = (store.lookupPlain scopes captures symbol, store) := by
  rw [lookup, noPath]
  rfl

theorem findBinding_congr {store other : Store} {id : Nat}
    (shape : ∀ ref, (other.scope ref).isCall = (store.scope ref).isCall)
    (bound : ∀ ref, (other.scope ref).lookup id = (store.scope ref).lookup id)
    (scopes : List ScopeRef) (captures : List Capture) :
    other.findBinding scopes captures id = store.findBinding scopes captures id := by
  have among (refs : List ScopeRef) : other.findAmong id refs = store.findAmong id refs := by
    simp only [findAmong, bound]
  have running : other.runningScopes scopes = store.runningScopes scopes :=
    runningScopes_congr fun ref _ => shape ref
  simp only [findBinding, findCaptured, among, running]

end Store

end StackLisp
