import StackLisp.Proofs.Store.Bindings

/-!
A binding that is written. Scopes are shared by all that run in them or were closed over them, and each
looks through scopes of its own, in its own order. Whoever finds the number that is written in the very
scope finds the new value; everyone else finds what was there before.
-/

namespace StackLisp.Store

variable {store after : Store} {ref : ScopeRef} {id : Nat} {value : Value}

/-- One number is bound to a value in one scope, and nothing else is done. -/
structure Rebinds (store : Store) (ref : ScopeRef) (id : Nat) (value : Value) (after : Store) :
    Prop where
  bound : (after.scope ref).lookup id = some value
  others : ∀ (seen : ScopeRef) (other : Nat), (seen, other) ≠ (ref, id) →
    (after.scope seen).lookup other = (store.scope seen).lookup other
  shape : ∀ seen, (after.scope seen).name = (store.scope seen).name ∧
    (after.scope seen).isCall = (store.scope seen).isCall
  size : after.scopes.size = store.scopes.size
  rest : after = { store with scopes := after.scopes }

theorem lt_of_lookup {old : Value} (bound : (store.scope ref).lookup id = some old) :
    ref < store.scopes.size := by
  refine Nat.lt_of_not_le fun outside => ?_
  have vacant : store.scope ref = default := by
    rw [scope, Array.getD_eq_getD_getElem?, Array.getElem?_eq_none outside]
    rfl
  rw [vacant] at bound
  cases bound

theorem rebinds_define (inside : ref < store.scopes.size) (symbol : Symbol) (value : Value) :
    store.Rebinds ref symbol.id value (store.define ref symbol value) where
  bound := by simp [lookup_define, inside]
  others := fun seen other differs => by
    rw [lookup_define, if_neg]
    rintro ⟨⟨rfl, _⟩, rfl⟩
    exact differs rfl
  shape := store.define_shape ref symbol value
  size := store.size_define ref symbol value
  rest := rfl

/-! What is found. -/

def searched (store : Store) (scopes : List ScopeRef) (captures : List Capture) : List ScopeRef :=
  store.runningScopes scopes ++ captures.flatMap Capture.scopes ++ [global]

theorem findCaptured_eq (store : Store) (id : Nat) (captures : List Capture) :
    store.findCaptured id captures = store.findAmong id (captures.flatMap Capture.scopes) := by
  induction captures with
  | nil => rfl
  | cons capture outer ih =>
      rw [List.flatMap_cons, findAmong_append, ← ih, findCaptured, findCaptured, List.findSome?_cons]
      cases store.findAmong id capture.scopes <;> rfl

theorem findBinding_eq (store : Store) (scopes : List ScopeRef) (captures : List Capture) (id : Nat) :
    store.findBinding scopes captures id = store.findAmong id (store.searched scopes captures) := by
  rw [findBinding, searched, findAmong_append, findAmong_append, findCaptured_eq]
  cases store.findAmong id (store.runningScopes scopes) <;> rfl

theorem findAmong_cons (store : Store) (id : Nat) (ref : ScopeRef) (refs : List ScopeRef) :
    store.findAmong id (ref :: refs) =
      (((store.scope ref).lookup id).map fun value => (value, ref)).or (store.findAmong id refs) := by
  rw [findAmong, List.findSome?_cons]
  cases (store.scope ref).lookup id <;> rfl

theorem lookup_of_findAmong {refs : List ScopeRef} (found : store.findAmong id refs = some (value, ref)) :
    (store.scope ref).lookup id = some value := by
  obtain ⟨seen, -, bound⟩ := List.exists_of_findSome?_eq_some found
  obtain ⟨held, same, pair⟩ := Option.map_eq_some_iff.mp bound
  cases pair
  exact same

theorem lookup_of_findBinding {scopes : List ScopeRef} {captures : List Capture}
    (found : store.findBinding scopes captures id = some (value, ref)) :
    (store.scope ref).lookup id = some value := by
  rw [findBinding_eq] at found
  exact lookup_of_findAmong found

structure SeenFrom (store : Store) (ref : ScopeRef) (id : Nat) (value : Value) (after : Store)
    (scopes : List ScopeRef) (captures : List Capture) : Prop where
  here : after.findBinding scopes captures id = some (value, ref) ∨
    after.findBinding scopes captures id = store.findBinding scopes captures id ∧
      ∀ old, store.findBinding scopes captures id ≠ some (old, ref)
  place : (store.scope ref).lookup id ≠ none →
    (after.findBinding scopes captures id).map Prod.snd =
      (store.findBinding scopes captures id).map Prod.snd
  others : ∀ other ≠ id,
    after.findBinding scopes captures other = store.findBinding scopes captures other

theorem assign_bind {scopes : List ScopeRef} {captures : List Capture} {symbol : Symbol} {old : Value}
    (plain : symbol.isPath = false)
    (found : store.findBinding scopes captures symbol.id = some (old, ref)) (value : Value) :
    store.assign scopes captures symbol value = store.bind ref symbol value := by
  have bound := lookup_of_findBinding found
  have checks : store.checkUpdate ref symbol value = store.checkBind ref symbol value := by
    rw [checkUpdate, checkBind, bound]
  rw [assign, plain]
  change store.assignPlain scopes captures symbol value = _
  rw [assignPlain, found]
  change store.update ref symbol value = _
  rw [update, bind, checks]

theorem assign_unbound {scopes : List ScopeRef} {captures : List Capture} {symbol : Symbol}
    (plain : symbol.isPath = false) (unbound : store.findBinding scopes captures symbol.id = none)
    (value : Value) :
    store.assign scopes captures symbol value = (.error (.undefined symbol.name), store) := by
  rw [assign, plain]
  change store.assignPlain scopes captures symbol value = _
  rw [assignPlain, unbound]

namespace Rebinds

theorem searched_eq (rebinds : store.Rebinds ref id value after) (scopes : List ScopeRef)
    (captures : List Capture) : after.searched scopes captures = store.searched scopes captures := by
  rw [searched, searched, runningScopes_congr fun seen _ => (rebinds.shape seen).2]

theorem lookup_elsewhere (rebinds : store.Rebinds ref id value after) {seen : ScopeRef}
    (elsewhere : seen ≠ ref) : (after.scope seen).lookup id = (store.scope seen).lookup id :=
  rebinds.others seen id fun same => elsewhere (congrArg Prod.fst same)

theorem findAmong (rebinds : store.Rebinds ref id value after) (refs : List ScopeRef) :
    after.findAmong id refs = some (value, ref) ∨
      after.findAmong id refs = store.findAmong id refs ∧
        ∀ old, store.findAmong id refs ≠ some (old, ref) := by
  induction refs with
  | nil => exact .inr ⟨rfl, fun old found => by cases found⟩
  | cons seen refs ih =>
      rw [findAmong_cons, findAmong_cons]
      by_cases there : seen = ref
      · subst there
        exact .inl (by simp [rebinds.bound])
      · rw [rebinds.lookup_elsewhere there]
        cases (store.scope seen).lookup id with
        | none => exact ih
        | some held =>
            refine .inr ⟨rfl, fun old same => ?_⟩
            cases same
            exact there rfl

theorem isSome_lookup (rebinds : store.Rebinds ref id value after)
    (bound : (store.scope ref).lookup id ≠ none) (seen : ScopeRef) (other : Nat) :
    ((after.scope seen).lookup other).isSome = ((store.scope seen).lookup other).isSome := by
  by_cases written : (seen, other) = (ref, id)
  · cases written
    rw [rebinds.bound, Option.isSome_some, Option.isSome_iff_ne_none.mpr bound]
  · rw [rebinds.others seen other written]

theorem findAmong_place (rebinds : store.Rebinds ref id value after)
    (bound : (store.scope ref).lookup id ≠ none) (refs : List ScopeRef) :
    (after.findAmong id refs).map Prod.snd = (store.findAmong id refs).map Prod.snd := by
  induction refs with
  | nil => rfl
  | cons seen refs ih =>
      have same := rebinds.isSome_lookup bound seen id
      rw [findAmong_cons, findAmong_cons]
      cases new : (after.scope seen).lookup id <;> cases old : (store.scope seen).lookup id
      · exact ih
      · simp [new, old] at same
      · simp [new, old] at same
      · rfl

theorem seenFrom (rebinds : store.Rebinds ref id value after) (scopes : List ScopeRef)
    (captures : List Capture) : store.SeenFrom ref id value after scopes captures where
  here := by
    rw [findBinding_eq, findBinding_eq, rebinds.searched_eq]
    exact rebinds.findAmong _
  place := fun bound => by
    rw [findBinding_eq, findBinding_eq, rebinds.searched_eq]
    exact rebinds.findAmong_place bound _
  others := fun other differs => findBinding_congr (fun seen => (rebinds.shape seen).2)
    (fun seen => rebinds.others seen other fun same => differs (congrArg Prod.snd same)) _ _

end Rebinds

end StackLisp.Store
