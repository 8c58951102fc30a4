import StackLisp.Proofs.Record.Fields
import StackLisp.Proofs.Store.Bindings
import StackLisp.Proofs.Store.Bisimulation
import StackLisp.Proofs.Store.Learning

/-!
Paths through the fields of records. To look a path up and to assign to it is the same walk, up to the
last part; the names of the parts enter the symbol table on the way, and that is all that a walk does to
the store. Assigning sets one field of the one record that the walk comes to.
-/

namespace StackLisp

/-! The parts of a path. -/

theorem pathPartsFrom_plain {part text : List Char} (plain : '.' ∉ part) :
    ∀ name ∈ pathPartsFrom part text, '.' ∉ name := by
  induction text generalizing part with
  | nil =>
      intro name member
      rw [pathPartsFrom] at member
      split at member
      · cases member
      · obtain rfl := List.mem_singleton.mp member
        simpa using plain
  | cons c rest ih =>
      intro name member
      by_cases dot : c = '.'
      · subst dot
        rw [pathPartsFrom] at member
        split at member
        · exact ih (by simp) name member
        · rcases List.mem_cons.mp member with rfl | later
          · simpa using plain
          · exact ih (by simp) name later
      · rw [pathPartsFrom.eq_3 _ _ _ (by simpa using dot)] at member
        exact ih (by simp [plain, Ne.symm dot]) name member

theorem pathParts_plain {path part : String} (member : part ∈ pathParts path) (id : Nat)
    (colon : Bool) : (⟨part, id, colon⟩ : Symbol).isPath = false := by
  obtain ⟨name, inside, rfl⟩ := List.mem_map.mp member
  have plain := pathPartsFrom_plain (by simp) name inside
  rw [Symbol.isPath, Symbol.shape, String.toList_ofList]
  unfold shapeOf
  split <;> simp_all

namespace Store

variable {store between later : Store}

/-! Walks. -/

def field? (store : Store) (ref : RecordRef) (name : String) : Option Value :=
  (store.record ref).fields.get? (.symbol (store.intern name).1)

inductive Leads : Store → Value → List String → List RecordRef → Value → Store → Prop
  | here {store value} : Leads store value [] [] value store
  | through {store ref name found names met value later} : store.field? ref name = some found →
    Leads (store.intern name).2 found names met value later →
    Leads store (.record ref) (name :: names) (ref :: met) value later

inductive Walks (store : Store) (scopes : List ScopeRef) (captures : List Capture) :
    List String → List RecordRef → Value → Store → Prop
  | start {first root names met value later} :
    store.lookupPlain scopes captures (store.intern first).1 = .ok root →
    Leads (store.intern first).2 root names met value later →
    Walks store scopes captures (first :: names) met value later

theorem Leads.learns {value found : Value} {names : List String} {met : List RecordRef}
    (leads : Leads store value names met found later) : store.Learns later := by
  induction leads with
  | here => exact .refl _
  | through _ _ ih => exact (intern_learns _ _).trans ih

theorem stepInto_record (store : Store) (path name : String) (ref : RecordRef) :
    store.stepInto path name (.record ref) =
      ((store.field? ref name).elim (.error (.noField path name)) .ok, (store.intern name).2) := by
  have field : (store.intern name).2.getField ref (.symbol (store.intern name).1) =
      .ok (store.field? ref name) := rfl
  rw [stepInto]
  simp only [field]
  cases store.field? ref name <;> rfl

theorem follow_eq_ok {path : String} {value found : Value} {names : List String} :
    store.follow path value names = (.ok found, later) ↔
      ∃ met, Leads store value names met found later := by
  induction names generalizing store value with
  | nil =>
      rw [follow]
      constructor
      · intro same
        cases same
        exact ⟨[], .here⟩
      · rintro ⟨met, leads⟩
        cases leads
        rfl
  | cons name names ih =>
      rw [follow]
      cases value with
      | record ref =>
          rw [stepInto_record]
          cases field : store.field? ref name with
          | none =>
              refine ⟨fun same => (by cases same), ?_⟩
              rintro ⟨met, leads⟩
              cases leads with
              | through held _ => simp [field] at held
          | some next =>
              dsimp only [Option.elim]
              rw [ih]
              constructor
              · rintro ⟨met, leads⟩
                exact ⟨ref :: met, .through field leads⟩
              · rintro ⟨met, leads⟩
                cases leads with
                | through held leads =>
                    obtain rfl : next = _ := Option.some_inj.mp (field.symm.trans held)
                    exact ⟨_, leads⟩
      | _ =>
          refine ⟨fun same => (by cases same), ?_⟩
          rintro ⟨met, leads⟩
          cases leads

theorem lookupPlain_of_scopes (same : later.scopes = store.scopes) (scopes : List ScopeRef)
    (captures : List Capture) (symbol : Symbol) :
    later.lookupPlain scopes captures symbol = store.lookupPlain scopes captures symbol := by
  have found : later.findBinding scopes captures symbol.id =
      store.findBinding scopes captures symbol.id :=
    findBinding_congr (fun ref => by rw [scope_of_scopes same])
      (fun ref => by rw [scope_of_scopes same]) scopes captures
  rw [lookupPlain, lookupPlain, found]

theorem lookupPath_eq_ok {scopes : List ScopeRef} {captures : List Capture} {path : String}
    {parts : List String} {found : Value} :
    store.lookupPath scopes captures path parts = (.ok found, later) ↔
      ∃ met, store.Walks scopes captures parts met found later := by
  cases parts with
  | nil =>
      refine ⟨fun same => (by cases same), ?_⟩
      rintro ⟨met, walks⟩
      cases walks
  | cons first names =>
      have root : (store.intern first).2.lookupPlain scopes captures (store.intern first).1 =
          store.lookupPlain scopes captures (store.intern first).1 :=
        lookupPlain_of_scopes (show (store.intern first).2.scopes = store.scopes from rfl) _ _ _
      rw [lookupPath]
      simp only [root]
      cases looked : store.lookupPlain scopes captures (store.intern first).1 with
      | error cause =>
          refine ⟨fun same => (by cases same), ?_⟩
          rintro ⟨met, walks⟩
          cases walks with
          | start found _ => simp [looked] at found
      | ok value =>
          dsimp only
          rw [follow_eq_ok]
          constructor
          · rintro ⟨met, leads⟩
            exact ⟨met, .start looked leads⟩
          · rintro ⟨met, walks⟩
            cases walks with
            | start found leads =>
                obtain rfl : value = _ := Except.ok.inj (looked.symm.trans found)
                exact ⟨met, leads⟩

theorem Walks.unique {scopes : List ScopeRef} {captures : List Capture} {parts : List String}
    {met passed : List RecordRef} {found : Value} {last : Store}
    (walks : store.Walks scopes captures parts met found later)
    (again : store.Walks scopes captures parts passed found last) : later = last := by
  have first : store.lookupPath scopes captures "" parts = (.ok found, later) :=
    lookupPath_eq_ok.mpr ⟨met, walks⟩
  have second : store.lookupPath scopes captures "" parts = (.ok found, last) :=
    lookupPath_eq_ok.mpr ⟨passed, again⟩
  exact congrArg Prod.snd (first.symm.trans second)

theorem Walks.learns {scopes : List ScopeRef} {captures : List Capture} {parts : List String}
    {met : List RecordRef} {found : Value} (walks : store.Walks scopes captures parts met found later) :
    store.Learns later := by
  cases walks with
  | start _ leads => exact (intern_learns _ _).trans leads.learns

/-! Assigning. -/

/-- One field of one record is set, and nothing else is changed: an old field keeps its place, and a
new one is the last. The name of the field is known from then on. -/
structure SetsField (store : Store) (ref : RecordRef) (name : String) (value : Value) (after : Store) :
    Prop where
  grown : store.symbols.Grown after.symbols
  known : (after.intern name).2 = after
  rest : after = { store with symbols := after.symbols, records := after.records }
  typeNames : after.typeName = store.typeName
  size : after.records.size = store.records.size
  records : ∀ other ≠ ref, after.record other = store.record other
  field : ref < store.records.size → after.field? ref name = some value
  fields : ref < store.records.size → ∀ key : Key,
    (.symbol (after.intern name).1 == key) = false →
    (after.record ref).fields.get? key = (store.record ref).fields.get? key
  keys : ref < store.records.size → (after.record ref).fields.keys =
    if ((store.record ref).fields.get? (.symbol (after.intern name).1)).isSome then
      (store.record ref).fields.keys
    else (store.record ref).fields.keys ++ [.symbol (after.intern name).1]

def withField (store : Store) (ref : RecordRef) (name : String) (value : Value) : Store :=
  (store.intern name).2.modifyRecord ref fun fields =>
    fields.set (.symbol (store.intern name).1) value

theorem record_modifyRecord_of_ne (store : Store) {ref other : RecordRef} (differs : other ≠ ref)
    (change : OrderedMap Key Value → OrderedMap Key Value) :
    (store.modifyRecord ref change).record other = store.record other := by
  simp [record, modifyRecord, Array.getD_eq_getD_getElem?, Array.getElem?_modify, differs.symm]

theorem withField_intern (store : Store) (ref : RecordRef) (name : String) (value : Value) :
    (store.withField ref name value).intern name =
      ((store.intern name).1, store.withField ref name value) :=
  store.intern_again .refl

theorem Learns.setsField (learns : store.Learns between) (ref : RecordRef) (name : String)
    (value : Value) : store.SetsField ref name value (between.withField ref name value) := by
  obtain ⟨symbols, rfl⟩ : ∃ symbols, between = { store with symbols } := ⟨_, learns.rest⟩
  generalize begun : { store with symbols } = between at *
  have again := between.withField_intern ref name value
  have same (other : RecordRef) : (between.intern name).2.record other = store.record other := by
    rw [← begun]
    rfl
  have size : (between.intern name).2.records.size = store.records.size := by
    rw [← begun]
    rfl
  have changed (inside : ref < store.records.size) :
      ((between.withField ref name value).record ref).fields =
        (store.record ref).fields.set (.symbol (between.intern name).1) value := by
    rw [withField, record_modifyRecord _ _ _ (size ▸ inside), same]
  constructor
  case grown => exact (learns.trans (between.intern_learns name)).names
  case known => rw [again]
  case rest =>
    rw [← begun]
    rfl
  case typeNames =>
    rw [withField, Store.typeName_modifyRecord, ← begun]
    rfl
  case size =>
    rw [← size]
    exact Array.size_modify
  case records =>
    intro other differs
    rw [withField, record_modifyRecord_of_ne _ differs, same]
  case field =>
    intro inside
    rw [field?, again, changed inside, OrderedMap.get?_set]
    simp
  case fields =>
    intro inside key differs
    rw [again] at differs
    rw [changed inside, OrderedMap.get?_set, differs]
    rfl
  case keys =>
    intro inside
    rw [again, changed inside, OrderedMap.keys_set]

section Assign

variable {scopes : List ScopeRef} {captures : List Capture} {path name : String}
  {parts : List String} {ref : RecordRef} {value : Value}

theorem reverse_concat (several : parts ≠ []) (name : String) :
    ∃ first before, (parts ++ [name]).reverse = name :: first :: before ∧
      (first :: before).reverse = parts := by
  obtain ⟨first, before, turned⟩ := List.exists_cons_of_ne_nil
    (fun none => several (List.reverse_eq_nil_iff.mp none))
  refine ⟨first, before, ?_, ?_⟩
  · rw [List.reverse_append, turned]
    rfl
  · rw [← turned, List.reverse_reverse]

theorem assignPath_reached (several : parts ≠ [])
    (reached : store.lookupPath scopes captures path parts = (.ok (.record ref), between)) :
    store.assignPath scopes captures path (parts ++ [name]) value =
      (.ok (), between.withField ref name value) := by
  obtain ⟨first, before, turned, back⟩ := reverse_concat several name
  rw [assignPath, turned]
  dsimp only
  rw [back, reached]
  rfl

theorem assignPath_unreached (several : parts ≠ [])
    (unreached : ∀ ref between,
      store.lookupPath scopes captures path parts ≠ (.ok (.record ref), between)) :
    ∃ cause after, store.assignPath scopes captures path (parts ++ [name]) value =
      (.error cause, after) ∧ store.Learns after := by
  have learns := store.lookupPath_learns scopes captures path parts
  obtain ⟨first, before, turned, back⟩ := reverse_concat several name
  rw [assignPath, turned]
  dsimp only
  rw [back]
  cases looked : store.lookupPath scopes captures path parts with
  | mk found after =>
      rw [looked] at learns
      cases found with
      | error cause => exact ⟨cause, after, rfl, learns⟩
      | ok other =>
          cases other with
          | record ref => exact absurd looked (unreached ref after)
          | _ => exact ⟨_, after, rfl, learns⟩

end Assign

/-! The same walk again. -/

section Again

variable {after : Store} {value found : Value} {names : List String} {met : List RecordRef}

theorem Leads.again (leads : Leads store value names met found later)
    (grown : later.symbols.Grown after.symbols)
    (records : ∀ ref ∈ met, after.record ref = store.record ref) :
    Leads after value names met found after := by
  induction leads with
  | here => exact .here
  | @through store ref name next names met found later field leads ih =>
      have knows : after.intern name = ((store.intern name).1, after) :=
        store.intern_again (leads.learns.names.trans grown)
      obtain ⟨here, further⟩ := List.forall_mem_cons.mp records
      have held : after.field? ref name = some next := by
        rw [field?, knows, here]
        exact field
      refine .through held ?_
      rw [knows]
      exact ih grown further

theorem Leads.concat {ref : RecordRef} {name : String}
    (leads : Leads store value names met (.record ref) later) (field : later.field? ref name = some found) :
    Leads store value (names ++ [name]) (met ++ [ref]) found (later.intern name).2 := by
  generalize ended : Value.record ref = last at leads
  induction leads with
  | here =>
      cases ended
      exact .through field .here
  | through held _ ih => exact .through held (ih field ended)

variable {scopes : List ScopeRef} {captures : List Capture} {parts : List String}

theorem Walks.again (walks : store.Walks scopes captures parts met found later)
    (grown : later.symbols.Grown after.symbols) (same : after.scopes = store.scopes)
    (records : ∀ ref ∈ met, after.record ref = store.record ref) :
    after.Walks scopes captures parts met found after := by
  cases walks with
  | @start first root names _ _ _ looked leads =>
      have knows : after.intern first = ((store.intern first).1, after) :=
        store.intern_again (leads.learns.names.trans grown)
      have lookedAgain : after.lookupPlain scopes captures (after.intern first).1 = .ok root := by
        rw [knows, lookupPlain_of_scopes same]
        exact looked
      refine .start lookedAgain ?_
      rw [knows]
      exact leads.again grown records

theorem Walks.concat {ref : RecordRef} {name : String}
    (walks : store.Walks scopes captures parts met (.record ref) later)
    (field : later.field? ref name = some found) :
    store.Walks scopes captures (parts ++ [name]) (met ++ [ref]) found (later.intern name).2 := by
  cases walks with
  | start looked leads => exact .start looked (leads.concat field)

theorem Walks.assigned {ref : RecordRef} {name : String}
    (walks : store.Walks scopes captures parts met (.record ref) later)
    (inside : ref < store.records.size) (new : ref ∉ met) (path : String) :
    let after := later.withField ref name value
    after.lookupPath scopes captures path (parts ++ [name]) = (.ok value, after) := by
  intro after
  have sets : store.SetsField ref name value after := walks.learns.setsField ref name value
  have grown : later.symbols.Grown after.symbols := (later.intern_learns name).names
  have sameScopes : after.scopes = store.scopes := by rw [sets.rest]
  have again := walks.again grown sameScopes fun other member =>
    sets.records other fun same => new (same ▸ member)
  have whole := again.concat (sets.field inside)
  rw [sets.known] at whole
  exact lookupPath_eq_ok.mpr ⟨_, whole⟩

end Again

end Store

end StackLisp
