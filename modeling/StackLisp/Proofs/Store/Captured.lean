import Mathlib.Data.List.TakeWhile
import StackLisp.Store.Binding

/-!
What a closure finds in the scopes that it was made in. It keeps the scopes of the call that made it,
short of the global one, and what the maker was closed over in turn; that is all that its maker sees
if the maker sees the global scope last.
-/

namespace StackLisp.Store

variable {store later : Store}

theorem findAmong_append (store : Store) (id : Nat) (front back : List ScopeRef) :
    store.findAmong id (front ++ back) =
      (store.findAmong id front <|> store.findAmong id back) := by
  simp only [findAmong, List.findSome?_append]
  cases front.findSome? _ <;> rfl

theorem findAmong_unbound {id : Nat} {refs : List ScopeRef}
    (unbound : ∀ ref ∈ refs, (store.scope ref).lookup id = none) :
    store.findAmong id refs = none := by
  rw [findAmong, List.findSome?_eq_none_iff]
  intro ref member
  rw [unbound ref member]
  rfl

/-! The scopes of a running call. -/

theorem runningScopes_prefix (store : Store) (scopes : List ScopeRef) :
    store.runningScopes scopes <+: scopes := by
  induction scopes with
  | nil => exact List.prefix_rfl
  | cons ref outer ih =>
      rw [runningScopes]
      split
      · exact List.cons_prefix_cons.mpr ⟨rfl, List.nil_prefix⟩
      · exact List.cons_prefix_cons.mpr ⟨rfl, ih⟩

theorem runningScopes_inside {boundary : ScopeRef} (isCall : (store.scope boundary).isCall = true)
    (own callers : List ScopeRef) :
    store.runningScopes (own ++ boundary :: callers) <+: own ++ [boundary] := by
  induction own with
  | nil =>
      simp only [List.nil_append, runningScopes, isCall, ↓reduceIte]
      exact List.prefix_rfl
  | cons ref own ih =>
      rw [List.cons_append, List.cons_append, runningScopes]
      split
      · exact List.cons_prefix_cons.mpr ⟨rfl, List.nil_prefix⟩
      · exact List.cons_prefix_cons.mpr ⟨rfl, ih⟩

theorem runningScopes_congr {scopes : List ScopeRef}
    (same : ∀ ref ∈ scopes, (later.scope ref).isCall = (store.scope ref).isCall) :
    later.runningScopes scopes = store.runningScopes scopes := by
  induction scopes with
  | nil => rfl
  | cons ref outer ih =>
      obtain ⟨here, further⟩ := List.forall_mem_cons.mp same
      rw [runningScopes, runningScopes, here, ih further]

theorem runningScopes_takeWhile (store : Store) (keep : ScopeRef → Bool) (scopes : List ScopeRef) :
    store.runningScopes (scopes.takeWhile keep) = (store.runningScopes scopes).takeWhile keep := by
  induction scopes with
  | nil => rfl
  | cons ref outer ih =>
      cases kept : keep ref with
      | false =>
          rw [runningScopes]
          split
          · simp [runningScopes, kept]
          · simp [runningScopes, kept]
      | true =>
          rw [List.takeWhile_cons_of_pos kept, runningScopes, runningScopes, ih]
          split
          · simp [kept]
          · simp [kept]

/-! Closures. -/

/-- The scopes that are not the global one, nor below it. -/
def aboveGlobal (scopes : List ScopeRef) : List ScopeRef := scopes.takeWhile (· != global)

/-- The global scope is seen last from here: it is none of the running call, or the outermost scope
of a function that is closed over no scope. -/
def Anchored (store : Store) (scopes : List ScopeRef) (captures : List Capture) : Prop :=
  global ∈ store.runningScopes scopes →
    (∀ capture ∈ captures, capture.scopes = []) ∧
      store.runningScopes scopes = store.capturable global scopes ++ [global]

/-- A closure finds what its maker would find above the global scope, and there at last, on any later
contents of the scopes. -/
theorem findBinding_captured {scopes : List ScopeRef}
    (same : later.runningScopes scopes = store.runningScopes scopes) (captures : List Capture)
    (owner : String) (id : Nat) :
    (later.findCaptured id (⟨store.capturable global scopes, owner⟩ :: captures) <|>
      later.findAmong id [global]) = later.findBinding (aboveGlobal scopes) captures id := by
  have seen : later.runningScopes (aboveGlobal scopes) = store.capturable global scopes := by
    rw [aboveGlobal, runningScopes_takeWhile, same, capturable]
  rw [Store.findBinding, seen, findCaptured, List.findSome?_cons]
  cases later.findAmong id (store.capturable global scopes) <;> rfl

theorem Anchored.findBinding {scopes : List ScopeRef} {captures : List Capture}
    (anchored : store.Anchored scopes captures)
    (same : later.runningScopes scopes = store.runningScopes scopes) (id : Nat) :
    later.findBinding (aboveGlobal scopes) captures id = later.findBinding scopes captures id := by
  rw [Store.findBinding, Store.findBinding, aboveGlobal, runningScopes_takeWhile, same]
  by_cases sees : global ∈ store.runningScopes scopes
  · obtain ⟨noScopes, all⟩ := anchored sees
    have nothing : later.findCaptured id captures = none := by
      rw [findCaptured, List.findSome?_eq_none_iff]
      intro capture member
      rw [noScopes capture member]
      rfl
    rw [← capturable, all, findAmong_append, nothing]
    cases later.findAmong id (store.capturable global scopes) <;>
      cases later.findAmong id [global] <;> rfl
  · have kept : ∀ ref ∈ store.runningScopes scopes, (ref != global) = true := by
      intro ref member
      simp only [bne_iff_ne, ne_eq]
      rintro rfl
      exact sees member
    rw [List.takeWhile_eq_self_iff.mpr kept]

end StackLisp.Store
