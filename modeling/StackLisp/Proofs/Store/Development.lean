import StackLisp.Form.Infix
import StackLisp.Native.Field
import StackLisp.Proofs.Store.Learning

/-!
How a store develops: by one elementary change after the other. Definitions in scopes that exist are
set apart from all else, since the state that they are made in may allow some and refuse others.
-/

namespace StackLisp.Store

abbrev Writes := Store → ScopeRef → Symbol → Value → Prop

abbrev Writes.all : Writes := fun _ _ _ _ => True

abbrev Writes.local : Writes := fun _ ref _ _ => ref ≠ global

inductive Change (writes : Writes) (store : Store) : Store → Prop
  | named {symbols : SymbolTable} :
    store.symbols.Grown symbols → Change writes store { store with symbols }
  | fresh (stem : String) : Change writes store (store.freshSymbol stem).2
  | arrays (arrays : Array (Array Value)) : Change writes store { store with arrays }
  | records (records : Array Record) : Change writes store { store with records }
  | pointers (pointers : Array Value) : Change writes store { store with pointers }
  | marked (nextMark : Nat) : Change writes store { store with nextMark }
  | made (function : Function) : Change writes store (store.newFunction function).2
  | opened (scope : Scope) : Change writes store (store.newScope scope).2
  | wrote {ref : ScopeRef} {symbol : Symbol} {value : Value} :
    writes store ref symbol value → Change writes store (store.define ref symbol value)
  | registered (function : Function) : Change writes store (store.addFunction function)
  | expanding (id : Nat) (ref : FunctionRef) : Change writes store (store.addExpander id ref)

inductive Develops (writes : Writes) (store : Store) : Store → Prop
  | refl : Develops writes store store
  | snoc {between later : Store} :
    Develops writes store between → between.Change writes later → Develops writes store later

section Develops

variable {writes : Writes}

theorem Change.develops {store later : Store} (change : store.Change writes later) :
    store.Develops writes later := .snoc .refl change

theorem Develops.trans {store between later : Store} (first : store.Develops writes between)
    (second : between.Develops writes later) : store.Develops writes later := by
  induction second with
  | refl => exact first
  | snoc _ change ih => exact ih.snoc change

theorem Develops.keeps {kept : Store → Prop}
    (step : ∀ {store later : Store}, kept store → store.Change writes later → kept later)
    {store later : Store} (develops : store.Develops writes later) (held : kept store) :
    kept later := by
  induction develops with
  | refl => exact held
  | snoc _ change ih => exact step ih change

theorem Develops.mono {others : Writes}
    (allowed : ∀ store ref symbol value, writes store ref symbol value →
      others store ref symbol value)
    {store later : Store} (develops : store.Develops writes later) :
    store.Develops others later := by
  induction develops with
  | refl => exact .refl
  | snoc _ change ih =>
      cases change with
      | named grown => exact ih.snoc (.named grown)
      | fresh stem => exact ih.snoc (.fresh stem)
      | arrays arrays => exact ih.snoc (.arrays arrays)
      | records records => exact ih.snoc (.records records)
      | pointers pointers => exact ih.snoc (.pointers pointers)
      | marked mark => exact ih.snoc (.marked mark)
      | made function => exact ih.snoc (.made function)
      | opened scope => exact ih.snoc (.opened scope)
      | wrote written => exact ih.snoc (.wrote (allowed _ _ _ _ written))
      | registered function => exact ih.snoc (.registered function)
      | expanding id ref => exact ih.snoc (.expanding id ref)

theorem Learns.develops {store later : Store} (learns : store.Learns later) :
    store.Develops writes later := by
  rw [learns.rest]
  exact (Change.named learns.names).develops

variable (store : Store)

theorem develops_newArray (items : Array Value) : store.Develops writes (store.newArray items).2 :=
  (Change.arrays _).develops

theorem develops_newRecord (record : Record) : store.Develops writes (store.newRecord record).2 :=
  (Change.records _).develops

theorem develops_newPair (head tail : Value) : store.Develops writes (store.newPair head tail).2 :=
  (Change.marked _).develops

theorem develops_newPointer (target : Value) : store.Develops writes (store.newPointer target).2 :=
  (Change.pointers _).develops

theorem develops_newList (items : List Value) : store.Develops writes (store.newList items).2 :=
  (Change.marked _).develops

theorem develops_newFunction (function : Function) :
    store.Develops writes (store.newFunction function).2 := (Change.made _).develops

theorem develops_newScope (scope : Scope) : store.Develops writes (store.newScope scope).2 :=
  (Change.opened _).develops

theorem develops_intern (name : String) : store.Develops writes (store.intern name).2 :=
  (Change.named (store.symbols.grown_symbol name)).develops

theorem develops_freshSymbol (stem : String) : store.Develops writes (store.freshSymbol stem).2 :=
  (Change.fresh stem).develops

theorem develops_setItem (ref : ArrayRef) (index : Nat) (value : Value) :
    store.Develops writes (store.setItem ref index value) := (Change.arrays _).develops

theorem develops_setField (ref : RecordRef) (key value : Value) :
    store.Develops writes (store.setField ref key value).2 := by
  unfold setField
  split
  · exact (Change.records _).develops
  · exact .refl

theorem develops_deleteField (ref : RecordRef) (key : Value) :
    store.Develops writes (store.deleteField ref key).2 := by
  unfold deleteField
  split
  · exact (Change.records _).develops
  · exact .refl

/-! Bindings and paths. -/

theorem develops_bind {ref : ScopeRef} {symbol : Symbol} {value : Value}
    (allowed : writes store ref symbol value) :
    store.Develops writes (store.bind ref symbol value).2 := by
  unfold bind
  split
  · exact (Change.wrote allowed).develops
  · exact .refl

theorem develops_update {ref : ScopeRef} {symbol : Symbol} {value : Value}
    (allowed : writes store ref symbol value) :
    store.Develops writes (store.update ref symbol value).2 := by
  unfold update
  split
  · exact (Change.wrote allowed).develops
  · exact .refl

theorem develops_lookup (scopes : List ScopeRef) (captures : List Capture) (symbol : Symbol) :
    store.Develops writes (store.lookup scopes captures symbol).2 :=
  (store.lookup_learns scopes captures symbol).develops

/-- The symbol whose binding an assignment changes, with the store that it is looked for in. An
assignment to a field changes none. -/
def assigned? (symbol : Symbol) : Option (Symbol × Store) :=
  if symbol.isPath then
    match (pathParts symbol.name).reverse with
    | [only] => some (store.intern only)
    | _ => none
  else some (symbol, store)

def Assigns (writes : Writes) (scopes : List ScopeRef) (captures : List Capture) (symbol : Symbol)
    (value : Value) : Prop :=
  ∀ target later old ref, store.assigned? symbol = some (target, later) →
    later.findBinding scopes captures target.id = some (old, ref) → writes later ref target value

instance decidableOfSome {α : Type} (found : Option α) (holds : α → Prop) [DecidablePred holds] :
    Decidable (∀ value, found = some value → holds value) :=
  match found with
  | none => isTrue fun _ is => nomatch is
  | some value => decidable_of_iff (holds value)
    ⟨fun held _ is => Option.some.inj is ▸ held, fun held => held value rfl⟩

instance (writes : Writes) [∀ store ref symbol value, Decidable (writes store ref symbol value)]
    (scopes : List ScopeRef) (captures : List Capture) (symbol : Symbol) (value : Value) :
    Decidable (store.Assigns writes scopes captures symbol value) :=
  decidable_of_iff
    (∀ target, store.assigned? symbol = some target →
      ∀ place, target.2.findBinding scopes captures target.1.id = some place →
        writes target.2 place.2 target.1 value)
    ⟨fun held target later old ref is found => held (target, later) is (old, ref) found,
      fun held target is place found => held target.1 target.2 place.1 place.2 is found⟩

theorem develops_assignPlain {scopes : List ScopeRef} {captures : List Capture} {symbol : Symbol}
    {value : Value}
    (allowed : ∀ old ref, store.findBinding scopes captures symbol.id = some (old, ref) →
      writes store ref symbol value) :
    store.Develops writes (store.assignPlain scopes captures symbol value).2 := by
  unfold assignPlain
  split
  next old ref found => exact store.develops_update (allowed old ref found)
  · exact .refl

theorem develops_assign {scopes : List ScopeRef} {captures : List Capture} {symbol : Symbol}
    {value : Value} (allowed : store.Assigns writes scopes captures symbol value) :
    store.Develops writes (store.assign scopes captures symbol value).2 := by
  unfold assign
  split
  next isPath =>
    unfold assignPath
    split
    · exact .refl
    next only single =>
      have target : store.assigned? symbol = some (store.intern only) := by
        simp [assigned?, isPath, single]
      exact (store.develops_intern only).trans
        (develops_assignPlain _ fun old ref => allowed _ _ old ref target)
    next last before _ _ =>
      have way : store.Develops writes _ :=
        (store.lookupPath_learns scopes captures symbol.name before.reverse).develops
      split
      next error next failed =>
        rw [failed] at way
        exact way
      next ref next reached =>
        rw [reached] at way
        exact (way.trans (next.develops_intern last)).trans (develops_setField _ ref _ value)
      next other next reached =>
        rw [reached] at way
        exact way
  next plain =>
    have target : store.assigned? symbol = some (symbol, store) := by simp [assigned?, plain]
    exact store.develops_assignPlain fun old ref => allowed _ _ old ref target

/-! Values made from trees. -/

theorem develops_toValue (tree : InfixTree) : store.Develops writes (tree.toValue store).2 := by
  induction tree generalizing store with
  | operand value => exact .refl
  | apply operator left right ihLeft ihRight =>
      exact ((ihLeft store).trans (ihRight _)).trans (develops_newList _ _)

end Develops

mutual

theorem develops_load {writes : Writes} (store : Store) (datum : Datum) :
    store.Develops writes (store.load datum).2 := by
  match datum with
  | .nil | .int _ | .uint _ | .float _ | .char _ | .bool _ | .text _ | .symbol _ => exact .refl
  | .pair head tail =>
      exact ((develops_load store head).trans (develops_load _ tail)).trans (develops_newPair _ _ _)
  | .array items => exact (develops_loadAll store items).trans (develops_newArray _ _)

theorem develops_loadAll {writes : Writes} (store : Store) (data : List Datum) :
    store.Develops writes (store.loadAll data).2 := by
  match data with
  | [] => exact .refl
  | datum :: later => exact (develops_load store datum).trans (develops_loadAll _ later)

end

end StackLisp.Store
