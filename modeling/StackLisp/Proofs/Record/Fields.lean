import StackLisp.Store.Equality
import StackLisp.Proofs.Record.OrderedMap
import StackLisp.Proofs.Store.Kinds

/-!
The fields of a record are an ordered association list of values, whatever hash function files them.
Keys count as one where the values are equal, symbols where their numbers are: with a colon or
without, a symbol names the same field.
-/

namespace StackLisp

instance : ReflBEq Key where
  rfl {key} := by
    change Key.same key key = true
    cases key <;> simp [Key.same]

instance : LawfulHashable Key where
  hash_eq left right same := by
    cases left <;> cases right <;> simp_all [BEq.beq, Key.same, hash, Key.hashCode]

def Value.isName : Value → Bool
  | .int _ | .uint _ | .char _ | .bool _ | .text _ | .symbol _ => true
  | _ => false

def Value.spelled : Value → Value
  | .symbol s => .symbol s.plain
  | other => other

def Store.sameName (store : Store) : Value → Value → Bool
  | .symbol s, .symbol s' => s.id == s'.id
  | name, other => store.equal name other

inductive FieldCall where
  | set (name value : Value)
  | get (name : Value)
  | delete (name : Value)
  | keys
  | length
  | pairs

inductive FieldAnswer where
  | done
  | found (value : Option Value)
  | deleted (was : Bool)
  | keys (names : List Value)
  | length (count : Nat)
  | pairs (entries : List (Value × Value))
  | refused (error : Error)

def shown (entries : List (Key × Value)) : List (Value × Value) :=
  entries.map fun entry => (entry.1.toValue, entry.2)

def Store.withKey {α : Type} (store : Store) (name : Value) (kept : α)
    (goOn : Key → FieldAnswer × α) : FieldAnswer × α :=
  match store.keyOf name with
  | .ok key => goOn key
  | .error error => (.refused error, kept)

def Store.withName {α : Type} (store : Store) (name : Value) (kept : α)
    (goOn : FieldAnswer × α) : FieldAnswer × α :=
  if name.isName then goOn else (.refused (.type (.notKey (store.kindOf name))), kept)

namespace FieldCall

def run [Hashable Key] (store : Store) (fields : OrderedMap Key Value) :
    FieldCall → FieldAnswer × OrderedMap Key Value
  | .set name value => store.withKey name fields fun key => (.done, fields.set key value)
  | .get name => store.withKey name fields fun key => (.found (fields.get? key), fields)
  | .delete name =>
    store.withKey name fields fun key => (.deleted (fields.contains key), fields.erase key)
  | .keys => (.keys (fields.keys.map Key.toValue), fields)
  | .length => (.length fields.size, fields)
  | .pairs => (.pairs (shown fields.pairs), fields)

def tell (store : Store) (entries : List (Value × Value)) :
    FieldCall → FieldAnswer × List (Value × Value)
  | .set name value =>
    store.withName name entries
      (.done, OrderedMap.place store.sameName name.spelled value entries)
  | .get name =>
    store.withName name entries
      (.found ((entries.find? fun entry => store.sameName entry.1 name).map Prod.snd), entries)
  | .delete name =>
    store.withName name entries
      (.deleted (entries.any fun entry => store.sameName entry.1 name),
        entries.filter fun entry => !store.sameName entry.1 name)
  | .keys => (.keys (entries.map Prod.fst), entries)
  | .length => (.length entries.length, entries)
  | .pairs => (.pairs entries, entries)

def ask (ref : RecordRef) (store : Store) : FieldCall → FieldAnswer × Store
  | .set name value =>
    match store.setField ref name value with
    | (.ok _, after) => (.done, after)
    | (.error error, after) => (.refused error, after)
  | .get name =>
    match store.getField ref name with
    | .ok value => (.found value, store)
    | .error error => (.refused error, store)
  | .delete name =>
    match store.deleteField ref name with
    | (.ok was, after) => (.deleted was, after)
    | (.error error, after) => (.refused error, after)
  | .keys => (.keys ((store.record ref).fields.keys.map Key.toValue), store)
  | .length => (.length (store.record ref).fields.size, store)
  | .pairs => (.pairs (shown (store.record ref).fields.pairs), store)

def all {α : Type} (one : α → FieldCall → FieldAnswer × α) (state : α) :
    List FieldCall → List FieldAnswer × α
  | [] => ([], state)
  | call :: later =>
    let (answer, state) := one state call
    let (answers, last) := all one state later
    (answer :: answers, last)

theorem all_agree {α β : Type} {one : α → FieldCall → FieldAnswer × α}
    {other : β → FieldCall → FieldAnswer × β} (agree : α → β → Prop)
    (step : ∀ state state' call, agree state state' →
      (one state call).1 = (other state' call).1 ∧
        agree (one state call).2 (other state' call).2)
    {state : α} {state' : β} (start : agree state state') (calls : List FieldCall) :
    (all one state calls).1 = (all other state' calls).1 ∧
      agree (all one state calls).2 (all other state' calls).2 := by
  induction calls generalizing state state' with
  | nil => exact ⟨rfl, start⟩
  | cons call later ih =>
      obtain ⟨answer, next⟩ := step state state' call start
      obtain ⟨answers, last⟩ := ih next
      exact ⟨by simp only [all, answer, answers], last⟩

end FieldCall

section Names

variable (store : Store)

theorem sameName_toValue (key other : Key) :
    store.sameName key.toValue other.toValue = (key == other) := by
  cases key <;> cases other <;> rfl

theorem keyOf_cases (name : Value) :
    (name.isName = false ∧ store.keyOf name = .error (.type (.notKey (store.kindOf name)))) ∨
      ∃ key, name.isName = true ∧ store.keyOf name = .ok key ∧ key.toValue = name.spelled ∧
        ∀ other : Key, store.sameName other.toValue name = (other == key) := by
  cases name
  case int n => exact .inr ⟨.int n, rfl, rfl, rfl, fun other => by cases other <;> rfl⟩
  case uint n => exact .inr ⟨.uint n, rfl, rfl, rfl, fun other => by cases other <;> rfl⟩
  case char c => exact .inr ⟨.char c, rfl, rfl, rfl, fun other => by cases other <;> rfl⟩
  case bool b => exact .inr ⟨.bool b, rfl, rfl, rfl, fun other => by cases other <;> rfl⟩
  case text s => exact .inr ⟨.text s, rfl, rfl, rfl, fun other => by cases other <;> rfl⟩
  case symbol s => exact .inr ⟨.symbol s.plain, rfl, rfl, rfl, fun other => by cases other <;> rfl⟩
  all_goals exact .inl ⟨rfl, rfl⟩

end Names

section Record

variable (store : Store) (ref : RecordRef) (change : OrderedMap Key Value → OrderedMap Key Value)

theorem record_modifyRecord (inside : ref < store.records.size) :
    (store.modifyRecord ref change).record ref =
      { store.record ref with fields := change (store.record ref).fields } := by
  simp [Store.record, Store.modifyRecord, Array.getElem_modify, inside]

theorem keyOf_modifyRecord (name : Value) :
    (store.modifyRecord ref change).keyOf name = store.keyOf name := by
  have kinds := Store.kindOf_congr store (store.modifyRecord ref change) rfl
    (store.typeName_modifyRecord ref change) name
  simp only [Store.keyOf, kinds]

theorem modifyRecord_modifyRecord (further : OrderedMap Key Value → OrderedMap Key Value) :
    (store.modifyRecord ref change).modifyRecord ref further =
      store.modifyRecord ref fun fields => further (change fields) := by
  have twice (records : Array Record) (first second : Record → Record) :
      (records.modify ref first).modify ref second = records.modify ref fun it => second (first it) := by
    apply Array.ext_getElem?
    intro other
    simp only [Array.getElem?_modify]
    split
    · rw [Option.map_map]
      rfl
    · rfl
  simp only [Store.modifyRecord, twice]

theorem modifyRecord_same
    (same : change (store.record ref).fields = (store.record ref).fields) :
    store.modifyRecord ref change = store := by
  have unchanged : (store.records.modify ref fun it => { it with fields := change it.fields }) =
      store.records := by
    apply Array.ext (by simp)
    intro other _ there
    rw [Array.getElem_modify]
    split
    next here =>
      subst here
      have it : store.record ref = store.records[ref] := by simp [Store.record, there]
      rw [← it, same]
    next => rfl
  simp only [Store.modifyRecord, unchanged]

theorem ask_run (inside : ref < store.records.size) {fields : OrderedMap Key Value}
    (call : FieldCall) :
    (call.ask ref (store.modifyRecord ref fun _ => fields)).1 = (call.run store fields).1 ∧
      (call.ask ref (store.modifyRecord ref fun _ => fields)).2 =
        store.modifyRecord ref fun _ => (call.run store fields).2 := by
  have here : ((store.modifyRecord ref fun _ => fields).record ref).fields = fields := by
    rw [record_modifyRecord store ref _ inside]
  have names := keyOf_modifyRecord store ref fun _ => fields
  have again := modifyRecord_modifyRecord store ref fun _ => fields
  cases call with
  | set name value =>
      simp only [FieldCall.ask, FieldCall.run, Store.withKey, Store.setField, names]
      cases store.keyOf name with
      | error error => exact ⟨rfl, rfl⟩
      | ok key => exact ⟨rfl, again fun fields => fields.set key value⟩
  | get name =>
      simp only [FieldCall.ask, FieldCall.run, Store.withKey, Store.getField, names, here]
      cases store.keyOf name <;> exact ⟨rfl, rfl⟩
  | delete name =>
      simp only [FieldCall.ask, FieldCall.run, Store.withKey, Store.deleteField, names, here]
      cases store.keyOf name with
      | error error => exact ⟨rfl, rfl⟩
      | ok key => exact ⟨rfl, again fun fields => fields.erase key⟩
  | keys => exact ⟨by simp only [FieldCall.ask, FieldCall.run, here], rfl⟩
  | length => exact ⟨by simp only [FieldCall.ask, FieldCall.run, here], rfl⟩
  | pairs => exact ⟨by simp only [FieldCall.ask, FieldCall.run, here], rfl⟩

end Record

section Run

variable [Hashable Key] (store : Store) {fields : OrderedMap Key Value}

open OrderedMap

/-- Some fields and an association list that shows the entries they hold. -/
def Shows (fields : OrderedMap Key Value) (list : List (Value × Value)) : Prop :=
  ∃ entries, Holds fields entries ∧ list = shown entries

theorem shows_empty : Shows .empty [] := ⟨[], holds_empty, rfl⟩

theorem withKey_shows {list : List (Value × Value)} (shows : Shows fields list) (name : Value)
    {goOn : Key → FieldAnswer × OrderedMap Key Value}
    {told : FieldAnswer × List (Value × Value)}
    (step : ∀ key, key.toValue = name.spelled →
      (∀ other : Key, store.sameName other.toValue name = (other == key)) →
      (goOn key).1 = told.1 ∧ Shows (goOn key).2 told.2) :
    (store.withKey name fields goOn).1 = (store.withName name list told).1 ∧
      Shows (store.withKey name fields goOn).2 (store.withName name list told).2 := by
  obtain ⟨unnamed, error⟩ | ⟨key, named, found, spelled, same⟩ := keyOf_cases store name
  · simpa [Store.withKey, Store.withName, error, unnamed] using shows
  · simpa [Store.withKey, Store.withName, found, named] using step key spelled same

variable [LawfulHashable Key]

theorem run_shows {list : List (Value × Value)} (shows : Shows fields list) (call : FieldCall) :
    (call.run store fields).1 = (call.tell store list).1 ∧
      Shows (call.run store fields).2 (call.tell store list).2 := by
  obtain ⟨entries, holds, rfl⟩ := id shows
  cases call with
  | set name value =>
      refine withKey_shows store shows name fun key spelled same => ⟨rfl, ?_⟩
      refine ⟨place (· == ·) key value entries, holds.set key value, ?_⟩
      rw [← spelled]
      exact (place_map Key.toValue fun other => sameName_toValue store other key).symm
  | get name =>
      refine withKey_shows store shows name fun key spelled same => ⟨?_, shows⟩
      simp [holds.get?, shown, List.find?_map, Function.comp_def, same]
  | delete name =>
      refine withKey_shows store shows name fun key spelled same => ⟨?_, ?_⟩
      · simp [holds.contains, shown, Function.comp_def, same]
      · refine ⟨entries.filter fun entry => !(entry.1 == key), holds.erase key, ?_⟩
        simp [shown, List.filter_map, Function.comp_def, same]
  | keys => exact ⟨by simp [FieldCall.run, FieldCall.tell, holds.keys, shown], shows⟩
  | length => exact ⟨by simp [FieldCall.run, FieldCall.tell, holds.size, shown], shows⟩
  | pairs => exact ⟨by simp [FieldCall.run, FieldCall.tell, holds.pairs], shows⟩

structure Consistent (fields : OrderedMap Key Value) : Prop where
  apart : (fields.keys.map Key.toValue).Pairwise fun name other => store.sameName name other = false
  found : ∀ key ∈ fields.keys, ∃ value, fields.get? key = some value
  filed : ∀ code, ∀ entry ∈ fields.bucket code, entry.1 ∈ fields.keys
  paired : fields.pairs.map Prod.fst = fields.keys ∧ fields.pairs.length = fields.size
  spared : ∀ call : FieldCall, (∃ error, (call.run store fields).1 = .refused error) →
    (call.run store fields).2 = fields

theorem Shows.consistent {list : List (Value × Value)} (shows : Shows fields list) :
    Consistent store fields := by
  obtain ⟨entries, holds, rfl⟩ := shows
  constructor
  · rw [holds.keys, List.pairwise_map]
    simp only [sameName_toValue]
    exact holds.apart
  · rw [holds.keys]
    intro key member
    obtain ⟨entry, inside, rfl⟩ := List.mem_map.mp member
    exact ⟨entry.2, by rw [holds.get?, find_of_apart holds.apart inside, Option.map_some]⟩
  · intro code entry member
    rw [holds.buckets] at member
    rw [holds.keys]
    exact List.mem_map_of_mem (List.mem_of_mem_filter member)
  · rw [holds.pairs, holds.keys, holds.size]
    exact ⟨rfl, rfl⟩
  · rintro call ⟨error, refused⟩
    cases call with
    | set name value =>
        revert refused
        simp only [FieldCall.run, Store.withKey]
        cases store.keyOf name <;> simp
    | delete name =>
        revert refused
        simp only [FieldCall.run, Store.withKey]
        cases store.keyOf name <;> simp
    | get name =>
        simp only [FieldCall.run, Store.withKey]
        cases store.keyOf name <;> rfl
    | keys | length | pairs => rfl

end Run

/-- Whatever is asked of new fields, and by whatever hash function they are filed, the answers are
those of an association list, and the two places of every key agree. The fields of a record in a
store answer the same. -/
theorem fields_refine (store : Store) (calls : List FieldCall) :
    let told := FieldCall.all (FieldCall.tell store) [] calls
    (∀ [Hashable Key] [LawfulHashable Key],
        let asked := FieldCall.all (FieldCall.run store) .empty calls
        asked.1 = told.1 ∧ shown asked.2.pairs = told.2 ∧ Consistent store asked.2) ∧
      ∀ ref, ref < store.records.size → (store.record ref).fields = .empty →
        let asked := FieldCall.all (FieldCall.ask ref) store calls
        asked.1 = told.1 ∧ shown (asked.2.record ref).fields.pairs = told.2 := by
  intro told
  have every [Hashable Key] [LawfulHashable Key] :
      let asked := FieldCall.all (FieldCall.run store) .empty calls
      asked.1 = told.1 ∧ shown asked.2.pairs = told.2 ∧ Consistent store asked.2 := by
    obtain ⟨answers, shows⟩ := FieldCall.all_agree Shows
      (fun _ _ call shows => run_shows store shows call) shows_empty calls
    refine ⟨answers, ?_, shows.consistent store⟩
    obtain ⟨entries, holds, told⟩ := shows
    rw [holds.pairs, told]
  refine ⟨every, fun ref inside new => ?_⟩
  have start : store = store.modifyRecord ref fun _ => .empty :=
    (modifyRecord_same store ref _ new.symm).symm
  obtain ⟨answers, same⟩ := FieldCall.all_agree
    (fun later fields => later = store.modifyRecord ref fun _ => fields)
    (fun _ _ call same => same ▸ ask_run store ref inside call) start calls
  obtain ⟨expected, list, _⟩ := every
  exact ⟨answers.trans expected, by rw [same, record_modifyRecord store ref _ inside, list]⟩

/-- All keys under one code: a symbol is met again with and without its colon, and not taken for the
text of its name. -/
theorem fields_refine_colliding :
    let name : Symbol := ⟨"a", 7, false⟩
    let store := (Store.empty.newRecord (.empty "")).2
    let calls : List FieldCall :=
      [.set (.symbol name.withColon) (.int 1), .set (.text "a") (.int 2), .set .nil (.int 0),
        .set (.symbol name) (.int 3), .get (.symbol name.withColon), .pairs,
        .delete (.symbol name.withColon), .keys, .length]
    let answers : List FieldAnswer :=
      [.done, .done, .refused (.type (.notKey .nil)), .done, .found (some (.int 3)),
        .pairs [(.symbol name, .int 3), (.text "a", .int 2)], .deleted true, .keys [.text "a"],
        .length 1]
    let colliding : Hashable Key := ⟨fun _ => 0⟩
    (FieldCall.all (@FieldCall.run colliding store) .empty calls).1 = answers ∧
      (FieldCall.all (FieldCall.ask 0) store calls).1 = answers := by
  intro name store calls answers colliding
  have lawful : LawfulHashable Key := ⟨fun _ _ _ => rfl⟩
  have told : (FieldCall.all (FieldCall.tell store) [] calls).1 = answers := rfl
  obtain ⟨filed, stored⟩ := fields_refine store calls
  exact ⟨(@filed colliding lawful).1.trans told, (stored 0 (by decide) rfl).1.trans told⟩

end StackLisp
