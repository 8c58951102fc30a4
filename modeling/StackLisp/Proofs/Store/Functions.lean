import StackLisp.Form.Infix
import StackLisp.Proofs.Store.Kinds
import StackLisp.Proofs.Store.Learning

/-!
Changes to the store that leave the functions in it alone: new objects of other sorts, names, and
everything that is done to bindings and fields. None of them makes the scope of a call another sort
of scope, or the other way round, scopes keep their names, and values keep their kinds.
-/

namespace StackLisp.Store

def kinds (store : Store) : List Bool := store.scopes.toList.map Scope.isCall

def names (store : Store) : List String := store.scopes.toList.map Scope.name

/-- A later store with the same functions, in which every scope is of the kind that it was. -/
structure Keeps (store later : Store) : Prop where
  functions : later.functions = store.functions
  kinds : store.kinds <+: later.kinds
  names : store.names <+: later.names
  types : store.KeepsTypes later

theorem keeps_of_eq {store later : Store} (functions : later.functions = store.functions)
    (scopes : later.scopes = store.scopes) (types : store.KeepsTypes later) : store.Keeps later where
  functions := functions
  kinds := ⟨[], by rw [List.append_nil, Store.kinds, Store.kinds, scopes]⟩
  names := ⟨[], by rw [List.append_nil, Store.names, Store.names, scopes]⟩
  types := types

theorem Keeps.refl (store : Store) : store.Keeps store := keeps_of_eq rfl rfl (.refl store)

theorem Keeps.trans {store between later : Store} (first : store.Keeps between)
    (second : between.Keeps later) : store.Keeps later :=
  ⟨second.functions.trans first.functions, first.kinds.trans second.kinds,
    first.names.trans second.names, first.types.trans second.types⟩

theorem Learns.keeps {store later : Store} (learns : store.Learns later) : store.Keeps later := by
  rw [learns.rest]
  exact keeps_of_eq rfl rfl (.of_eq rfl rfl)

variable (store : Store)

theorem newArray_keeps (items : Array Value) : store.Keeps (store.newArray items).2 :=
  keeps_of_eq rfl rfl (.of_eq rfl rfl)

theorem newRecord_keeps (record : Record) : store.Keeps (store.newRecord record).2 :=
  keeps_of_eq rfl rfl (store.keepsTypes_newRecord record)

theorem newScope_keeps (scope : Scope) : store.Keeps (store.newScope scope).2 :=
  ⟨rfl, by simp [Store.kinds, newScope], by simp [Store.names, newScope], .of_eq rfl rfl⟩

theorem newPair_keeps (head tail : Value) : store.Keeps (store.newPair head tail).2 :=
  keeps_of_eq rfl rfl (.of_eq rfl rfl)

theorem newPointer_keeps (target : Value) : store.Keeps (store.newPointer target).2 :=
  keeps_of_eq rfl rfl (store.keepsTypes_newPointer target)

theorem newList_keeps (items : List Value) : store.Keeps (store.newList items).2 :=
  keeps_of_eq rfl rfl (.of_eq rfl rfl)

theorem intern_keeps (name : String) : store.Keeps (store.intern name).2 :=
  keeps_of_eq rfl rfl (.of_eq rfl rfl)

theorem freshSymbol_keeps (stem : String) : store.Keeps (store.freshSymbol stem).2 :=
  keeps_of_eq rfl rfl (.of_eq rfl rfl)

theorem setItem_keeps (ref : ArrayRef) (index : Nat) (value : Value) :
    store.Keeps (store.setItem ref index value) := keeps_of_eq rfl rfl (.of_eq rfl rfl)

theorem modifyRecord_keeps (ref : RecordRef)
    (change : OrderedMap Key Value → OrderedMap Key Value) :
    store.Keeps (store.modifyRecord ref change) :=
  keeps_of_eq rfl rfl (store.keepsTypes_modifyRecord ref change)

theorem define_told {α : Type} (told : Scope → α)
    (blind : ∀ scope bindings, told { scope with bindings } = told scope) (ref : ScopeRef)
    (symbol : Symbol) (value : Value) :
    (store.define ref symbol value).scopes.toList.map told = store.scopes.toList.map told := by
  apply List.ext_getElem?
  intro place
  simp only [define, List.getElem?_map, Array.getElem?_toList, Array.getElem?_modify]
  split
  · rw [Option.map_map]
    exact congrArg (Option.map · _) (funext fun scope => blind scope _)
  · rfl

theorem define_keeps (ref : ScopeRef) (symbol : Symbol) (value : Value) :
    store.Keeps (store.define ref symbol value) := by
  refine ⟨rfl, ⟨[], ?_⟩, ⟨[], ?_⟩, .of_eq rfl rfl⟩
  · rw [List.append_nil, Store.kinds, Store.kinds, store.define_told Scope.isCall fun _ _ => rfl]
  · rw [List.append_nil, Store.names, Store.names, store.define_told Scope.name fun _ _ => rfl]

theorem addExpander_keeps (id : Nat) (ref : FunctionRef) :
    store.Keeps (store.addExpander id ref) := keeps_of_eq rfl rfl (.of_eq rfl rfl)

theorem setField_keeps (ref : RecordRef) (key value : Value) :
    store.Keeps (store.setField ref key value).2 := by
  unfold setField
  split
  · exact store.modifyRecord_keeps ref fun fields => fields.set _ value
  · exact .refl store

theorem deleteField_keeps (ref : RecordRef) (key : Value) :
    store.Keeps (store.deleteField ref key).2 := by
  unfold deleteField
  split
  · exact store.modifyRecord_keeps ref fun fields => fields.erase _
  · exact .refl store

/-! Bindings and paths. -/

theorem bind_keeps (ref : ScopeRef) (symbol : Symbol) (value : Value) :
    store.Keeps (store.bind ref symbol value).2 := by
  unfold bind
  split
  · exact store.define_keeps ref symbol value
  · exact .refl store

theorem update_keeps (ref : ScopeRef) (symbol : Symbol) (value : Value) :
    store.Keeps (store.update ref symbol value).2 := by
  unfold update
  split
  · exact store.define_keeps ref symbol value
  · exact .refl store

theorem assignPlain_keeps (scopes : List ScopeRef) (captures : List Capture) (symbol : Symbol)
    (value : Value) : store.Keeps (store.assignPlain scopes captures symbol value).2 := by
  unfold assignPlain
  split
  · exact store.update_keeps _ symbol value
  · exact .refl store

theorem lookup_keeps (scopes : List ScopeRef) (captures : List Capture) (symbol : Symbol) :
    store.Keeps (store.lookup scopes captures symbol).2 :=
  (store.lookup_learns scopes captures symbol).keeps

theorem assignPath_keeps (scopes : List ScopeRef) (captures : List Capture) (path : String)
    (parts : List String) (value : Value) :
    store.Keeps (store.assignPath scopes captures path parts value).2 := by
  unfold assignPath
  split
  · exact .refl store
  next only _ =>
    exact (store.intern_keeps only).trans (assignPlain_keeps _ scopes captures _ value)
  next last before _ _ =>
    have way := (store.lookupPath_learns scopes captures path before.reverse).keeps
    split
    next error next failed =>
      rw [failed] at way
      exact way
    next ref next reached =>
      rw [reached] at way
      exact (way.trans (next.intern_keeps last)).trans (setField_keeps _ ref _ value)
    next other next reached =>
      rw [reached] at way
      exact way

theorem assign_keeps (scopes : List ScopeRef) (captures : List Capture) (symbol : Symbol)
    (value : Value) : store.Keeps (store.assign scopes captures symbol value).2 := by
  unfold assign
  split
  · exact store.assignPath_keeps scopes captures _ _ value
  · exact store.assignPlain_keeps scopes captures symbol value

/-! Values made from trees. -/

theorem toValue_keeps (tree : InfixTree) : store.Keeps (tree.toValue store).2 := by
  induction tree generalizing store with
  | operand value => exact .refl store
  | apply operator left right leftKept rightKept =>
      exact ((leftKept store).trans (rightKept _)).trans (newList_keeps _ _)

mutual

theorem load_keeps (store : Store) (datum : Datum) : store.Keeps (store.load datum).2 := by
  match datum with
  | .nil | .int _ | .uint _ | .float _ | .char _ | .bool _ | .text _ | .symbol _ => exact .refl store
  | .pair head tail =>
      exact ((load_keeps store head).trans (load_keeps _ tail)).trans (newPair_keeps _ _ _)
  | .array items => exact (loadAll_keeps store items).trans (newArray_keeps _ _)

theorem loadAll_keeps (store : Store) (data : List Datum) :
    store.Keeps (store.loadAll data).2 := by
  match data with
  | [] => exact .refl store
  | datum :: later => exact (load_keeps store datum).trans (loadAll_keeps _ later)

end

end StackLisp.Store
