import Mathlib.Data.List.Nodup
import StackLisp.Native.Standard
import StackLisp.Proofs.Store.Bindings
import StackLisp.Proofs.Store.Kinds
import StackLisp.Store.Print

/-!
Stores that are told apart by what they bind some names to, and by nothing else: the names of the
functions that array literals and templates call.
-/

namespace StackLisp

def joining : List Standard := [.list, .array, .concat]

abbrev Naming := Standard → Nat

def Function.standard (native : Standard) : Function :=
  ⟨native.name, .native (.standard native) native.arity false⟩

namespace Naming

variable (naming : Naming)

def symbol (native : Standard) : Symbol := ⟨native.name, naming native, false⟩

def Known (store : Store) : Prop :=
  ∀ native ∈ joining, store.symbols.idOf? native.name = some (naming native)

def owns (id : Nat) : Bool := joining.any fun native => naming native == id

def Resolved (scopes : List ScopeRef) (captures : List Capture) (store : Store) : Prop :=
  ∀ native ∈ joining, ∃ ref place,
    store.findBinding scopes captures (naming native) = some (.function ref, place) ∧
      store.function ref = .standard native

structure Agrees (store other : Store) : Prop where
  rest : other = { store with scopes := other.scopes }
  size : other.scopes.size = store.scopes.size
  shape : ∀ ref, (other.scope ref).name = (store.scope ref).name ∧
    (other.scope ref).isCall = (store.scope ref).isCall
  bound : ∀ ref id, naming.owns id = false →
    (other.scope ref).lookup id = (store.scope ref).lookup id

end Naming

section Agrees

variable {naming : Naming} {store other later : Store} {scopes : List ScopeRef}
  {captures : List Capture}

/-- A number is bound to one function, so names that are bound to different ones have different numbers. -/
theorem Naming.Resolved.distinct (resolved : naming.Resolved scopes captures store) :
    (joining.map naming).Nodup := by
  refine List.Nodup.map_on (fun native joins other joinsOther same => ?_) (by decide)
  obtain ⟨ref, place, found, function⟩ := resolved native joins
  obtain ⟨ref', place', found', function'⟩ := resolved other joinsOther
  rw [same, found'] at found
  cases found
  have both : Function.standard native = .standard other := function.symm.trans function'
  have bodies := congrArg Function.body both
  simp only [Function.standard, Body.native.injEq, NativeKey.standard.injEq] at bodies
  exact bodies.1

theorem Naming.Agrees.symm (agrees : naming.Agrees store other) : naming.Agrees other store where
  rest := by rw [agrees.rest]
  size := agrees.size.symm
  shape := fun ref => ⟨(agrees.shape ref).1.symm, (agrees.shape ref).2.symm⟩
  bound := fun ref id plain => (agrees.bound ref id plain).symm

theorem Naming.Agrees.with (agrees : naming.Agrees store other)
    (same : later.scopes = store.scopes) :
    naming.Agrees later { later with scopes := other.scopes } where
  rest := rfl
  size := by
    rw [same]
    exact agrees.size
  shape := fun ref => by
    rw [Store.scope_of_scopes same]
    exact agrees.shape ref
  bound := fun ref id plain => by
    rw [Store.scope_of_scopes same]
    exact agrees.bound ref id plain

theorem Naming.Agrees.findBinding (agrees : naming.Agrees store other) {id : Nat}
    (plain : naming.owns id = false) (scopes : List ScopeRef) (captures : List Capture) :
    other.findBinding scopes captures id = store.findBinding scopes captures id :=
  Store.findBinding_congr (fun ref => (agrees.shape ref).2) (fun ref => agrees.bound ref id plain)
    scopes captures

theorem Naming.Resolved.with (resolved : naming.Resolved scopes captures store)
    (same : later.scopes = store.scopes) (functions : later.functions = store.functions) :
    naming.Resolved scopes captures later := by
  intro native joins
  obtain ⟨ref, place, found, standard⟩ := resolved native joins
  refine ⟨ref, place, ?_, ?_⟩
  · rw [← found]
    exact Store.findBinding_congr (fun ref => by rw [Store.scope_of_scopes same])
      (fun ref => by rw [Store.scope_of_scopes same]) scopes captures
  · rw [← standard, Store.function, Store.function, functions]

theorem Naming.Resolved.lookup (resolved : naming.Resolved scopes captures store) {native : Standard}
    (joins : native ∈ joining) :
    ∃ ref, store.lookup scopes captures (naming.symbol native) = (.ok (.function ref), store) ∧
      store.function ref = .standard native := by
  obtain ⟨ref, place, found, standard⟩ := resolved native joins
  have noPath : ∀ native ∈ joining, (⟨native.name, 0, false⟩ : Symbol).isPath = false := by decide
  have plain : (naming.symbol native).isPath = false := noPath native joins
  have same : store.findBinding scopes captures (naming.symbol native).id =
      some (.function ref, place) := found
  refine ⟨ref, ?_, standard⟩
  simp [Store.lookup, plain, Store.lookupPlain, same]

end Agrees

/-! Bindings removed. -/

def Scope.without (naming : Naming) (scope : Scope) : Scope :=
  { scope with bindings := scope.bindings.filter fun binding => !naming.owns binding.1 }

theorem Scope.lookup_without (naming : Naming) (scope : Scope) (id : Nat) :
    (scope.without naming).lookup id = if naming.owns id then none else scope.lookup id := by
  obtain ⟨name, isCall, bindings⟩ := scope
  simp only [without, Scope.lookup]
  induction bindings with
  | nil => simp
  | cons binding later ih =>
      obtain ⟨bound, value⟩ := binding
      cases owned : naming.owns bound with
      | true =>
          rw [List.filter_cons_of_neg (by simp [owned]), ih, lookup_binding]
          by_cases met : id = bound
          · simp [met, owned]
          · simp [met]
      | false =>
          rw [List.filter_cons_of_pos (by simp [owned]), lookup_binding, lookup_binding, ih]
          by_cases met : id = bound
          · simp [met, owned]
          · simp [met]

namespace Store

/-- The store without what programs have bound the names to: the global scope binds them to the
standard functions at the given places. -/
def restored (naming : Naming) (refs : Standard → FunctionRef) (store : Store) : Store :=
  joining.foldl
    (fun store native => store.define global (naming.symbol native) (.function (refs native)))
    { store with scopes := store.scopes.map (Scope.without naming) }

variable {naming : Naming} {store : Store}

theorem scope_without (naming : Naming) (store : Store) (ref : ScopeRef) :
    Store.scope { store with scopes := store.scopes.map (Scope.without naming) } ref =
      (store.scope ref).without naming := by
  simp only [scope, Array.getD_eq_getD_getElem?, Array.getElem?_map]
  cases store.scopes[ref]? <;> rfl

theorem agrees_without (naming : Naming) (store : Store) :
    naming.Agrees store { store with scopes := store.scopes.map (Scope.without naming) } where
  rest := rfl
  size := Array.size_map
  shape := fun ref => by
    rw [scope_without]
    exact ⟨rfl, rfl⟩
  bound := fun ref id plain => by simp [scope_without, Scope.lookup_without, plain]

theorem agrees_define {other : Store} (agrees : naming.Agrees store other) {native : Standard}
    (joins : native ∈ joining) (ref : ScopeRef) (value : Value) :
    naming.Agrees store (other.define ref (naming.symbol native) value) where
  rest := by
    rw [agrees.rest]
    rfl
  size := by
    rw [← agrees.size, size_define]
  shape := fun seen => by
    obtain ⟨name, isCall⟩ := other.define_shape ref (naming.symbol native) value seen
    exact ⟨name.trans (agrees.shape seen).1, isCall.trans (agrees.shape seen).2⟩
  bound := fun seen id plain => by
    have differs : (naming.symbol native).id ≠ id := by
      rintro rfl
      have owned : naming.owns (naming.symbol native).id = true :=
        List.any_eq_true.mpr ⟨native, joins, by simp [Naming.symbol]⟩
      rw [owned] at plain
      cases plain
    rw [lookup_define, if_neg (fun both => differs both.2)]
    exact agrees.bound seen id plain

theorem agrees_restored (naming : Naming) (refs : Standard → FunctionRef) (store : Store) :
    naming.Agrees store (store.restored naming refs) := by
  have kept (natives : List Standard) (joins : ∀ native ∈ natives, native ∈ joining) {other : Store}
      (agrees : naming.Agrees store other) : naming.Agrees store (natives.foldl (fun store native =>
        store.define global (naming.symbol native) (.function (refs native))) other) := by
    induction natives generalizing other with
    | nil => exact agrees
    | cons native later ih =>
        exact ih (fun native member => joins native (List.mem_cons_of_mem _ member))
          (agrees_define agrees (joins native (List.mem_cons_self ..)) _ _)
  exact kept joining (fun _ joins => joins) (agrees_without naming store)

theorem lookup_restored (distinct : (joining.map naming).Nodup) (refs : Standard → FunctionRef)
    (hasGlobal : global < store.scopes.size) {native : Standard} (joins : native ∈ joining)
    (ref : ScopeRef) :
    ((store.restored naming refs).scope ref).lookup (naming native) =
      if ref = global then some (.function (refs native)) else none := by
  have owned : naming.owns (naming native) = true :=
    List.any_eq_true.mpr ⟨native, joins, by simp⟩
  simp only [restored, joining, List.foldl, lookup_define, size_define, Array.size_map,
    scope_without, Scope.lookup_without, owned, Naming.symbol]
  have apart : (naming .list ≠ naming .array ∧ naming .list ≠ naming .concat) ∧
      naming .array ≠ naming .concat := by simpa [joining] using distinct
  obtain ⟨⟨listArray, listConcat⟩, arrayConcat⟩ := apart
  by_cases here : ref = global
  · subst here
    simp only [joining, List.mem_cons, List.not_mem_nil, or_false] at joins
    rcases joins with rfl | rfl | rfl <;>
      simp [hasGlobal, listArray.symm, listConcat.symm, arrayConcat.symm]
  · simp [Ne.symm here, here]

theorem resolved_restored (distinct : (joining.map naming).Nodup) {refs : Standard → FunctionRef}
    (hasGlobal : global < store.scopes.size)
    (made : ∀ native ∈ joining, store.function (refs native) = .standard native)
    (scopes : List ScopeRef) (captures : List Capture) :
    naming.Resolved scopes captures (store.restored naming refs) := by
  intro native joins
  have bound := lookup_restored distinct refs hasGlobal joins
  have among (seen : List ScopeRef) :
      (store.restored naming refs).findAmong (naming native) seen =
        if global ∈ seen then some (.function (refs native), global) else none := by
    induction seen with
    | nil => rfl
    | cons ref later ih =>
        simp only [findAmong, List.findSome?_cons, bound] at ih ⊢
        by_cases here : ref = global
        · simp [here]
        · simpa [here, Ne.symm here] using ih
  have captured : (store.restored naming refs).findCaptured (naming native) captures = none ∨
      (store.restored naming refs).findCaptured (naming native) captures =
        some (.function (refs native), global) := by
    induction captures with
    | nil => exact .inl rfl
    | cons capture later ih =>
        simp only [findCaptured, List.findSome?_cons, among] at ih ⊢
        by_cases here : global ∈ capture.scopes
        · simp [here]
        · simpa [here] using ih
  have function : (store.restored naming refs).function (refs native) = .standard native := by
    rw [← made native joins, (agrees_restored naming refs store).rest]
    rfl
  refine ⟨refs native, global, ?_, function⟩
  rw [findBinding, among, among, if_pos (List.mem_singleton_self _)]
  rcases captured with none | found
  · rw [none]
    by_cases here : global ∈ (store.restored naming refs).runningScopes scopes <;> simp [here]
  · rw [found]
    by_cases here : global ∈ (store.restored naming refs).runningScopes scopes <;> simp [here]

/-! Kinds and texts do not depend on bindings. -/

theorem kindOf_scopes (store : Store) (scopes : Array Scope) (value : Value) :
    Store.kindOf { store with scopes } value = store.kindOf value :=
  kindOf_congr store { store with scopes } rfl rfl value

theorem outlineWith_scopes (store : Store) (scopes : Array Scope)
    (inside : List Container → Value → Outline) (around : List Container) (value : Value) :
    Store.outlineWith { store with scopes } inside around value =
      store.outlineWith inside around value := by
  induction value generalizing around with
  | pair mark head tail ihHead ihTail => simp only [outlineWith, ihHead, ihTail]
  | _ => rfl

theorem outlineAt_scopes (store : Store) (scopes : Array Scope) (fuel : Nat) :
    Store.outlineAt { store with scopes } fuel = store.outlineAt fuel := by
  induction fuel with
  | zero => rfl
  | succ fuel ih =>
      funext around value
      rw [outlineAt, outlineAt, ih, outlineWith_scopes]

theorem text_scopes (store : Store) (scopes : Array Scope) (value : Value) :
    Store.text { store with scopes } value = store.text value := by
  rw [text, text, outline, outline, outlineAt_scopes]
  rfl

end Store

end StackLisp
