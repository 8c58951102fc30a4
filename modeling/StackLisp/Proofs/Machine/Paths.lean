import StackLisp.Proofs.Machine.Writing
import StackLisp.Proofs.Store.Paths

/-!
The instruction that assigns along a path. It goes where the instruction that gets the path without its
last part goes, and sets the last field in the record that it finds there; records may be shared and may
contain themselves. A path of one part is the variable of that name.
-/

namespace StackLisp.Machine

variable {host : Host} {perform : Perform} {world : World} {symbol : Symbol}

/-- To get a symbol puts its value on the stack, and does no more to the store than to learn names. -/
def Yields (host : Host) (perform : Perform) (world : World) (symbol : Symbol) (value : Value) :
    Prop :=
  ∃ got, execute host perform (.get symbol) world = .ok () got ∧ world.store.Learns got.store ∧
    got.env.data.elements = value :: world.env.data.elements

theorem yields_iff {value : Value} :
    Yields host perform world symbol value ↔ ∃ store,
      world.store.lookup world.env.scopes.elements world.env.function.captures symbol =
        (.ok value, store) := by
  have learns := world.store.lookup_learns world.env.scopes.elements world.env.function.captures
    symbol
  cases looked : world.store.lookup world.env.scopes.elements world.env.function.captures symbol with
  | mk found store =>
      rw [looked] at learns
      cases found with
      | error cause =>
          constructor
          · rintro ⟨got, done, _⟩
            rw [execute_get_fails looked] at done
            cases done
          · rintro ⟨_, same⟩
            cases same
      | ok held =>
          have gets : ∃ last, execute host perform (.get symbol) world = .ok () last ∧
              last.store = store ∧ last.env.data.elements = held :: world.env.data.elements :=
            execute_get_apply looked
          obtain ⟨last, executed, sameStore, elements⟩ := gets
          constructor
          · rintro ⟨got, done, _, found⟩
            rw [executed] at done
            cases done
            rw [elements] at found
            cases found
            exact ⟨store, rfl⟩
          · rintro ⟨_, same⟩
            cases same
            exact ⟨last, executed, sameStore ▸ learns, elements⟩

section Assign

variable {parts : List String} {last : String} {value : Value} {rest : List Value}

theorem yields_path {path : Symbol} (isPath : path.isPath = true) :
    Yields host perform world path value ↔ ∃ met store,
      world.store.Walks world.env.scopes.elements world.env.function.captures
        (pathParts path.name) met value store := by
  rw [yields_iff, exists_comm]
  refine exists_congr fun store => ?_
  rw [Store.lookup, isPath, if_pos rfl]
  exact Store.lookupPath_eq_ok

theorem assign_path (isPath : symbol.isPath = true) (split : pathParts symbol.name = parts)
    (store : Store) (scopes : List ScopeRef) (captures : List Capture) :
    store.assign scopes captures symbol value =
      store.assignPath scopes captures symbol.name parts value := by
  rw [Store.assign, isPath, if_pos rfl, split]

structure Assigned (world : World) (rest : List Value) (after : World) : Prop where
  popped : after.env.data.elements = rest
  others : after = { world with
    store := after.store
    env := { world.env with data := after.env.data, pc := after.env.pc } }

theorem assigned_of_apply {store : Store} {after : World}
    (top : world.env.data.elements = value :: rest)
    (done : (do ofExcept (.ok ()); advance : Machine Unit) { dropped world 1 with store } =
      .ok () after) : Assigned world rest after ∧ after.store = store := by
  cases done
  refine ⟨⟨?_, rfl⟩, rfl⟩
  change world.env.data.elements.drop 1 = rest
  rw [top]
  rfl

theorem set_path_cases (isPath : symbol.isPath = true)
    (split : pathParts symbol.name = parts ++ [last]) (several : parts ≠ [])
    (top : world.env.data.elements = value :: rest) :
    (∃ ref met between after,
      world.store.Walks world.env.scopes.elements world.env.function.captures parts met
        (.record ref) between ∧
      execute host perform (.set symbol) world = .ok () after ∧ Assigned world rest after ∧
      after.store = between.withField ref last value) ∨
    ((∀ ref met between, ¬world.store.Walks world.env.scopes.elements
        world.env.function.captures parts met (.record ref) between) ∧
      ∃ cause after, execute host perform (.set symbol) world = .error (.error cause) after ∧
        world.store.Learns after.store) := by
  by_cases reaches : ∃ ref met between, world.store.Walks world.env.scopes.elements
      world.env.function.captures parts met (.record ref) between
  · obtain ⟨ref, met, between, walks⟩ := reaches
    left
    have reached : world.store.lookupPath world.env.scopes.elements world.env.function.captures
        symbol.name parts = (.ok (.record ref), between) := Store.lookupPath_eq_ok.mpr ⟨met, walks⟩
    have assigns : world.store.assign world.env.scopes.elements world.env.function.captures symbol
        value = (.ok (), between.withField ref last value) := by
      rw [assign_path isPath split]
      exact Store.assignPath_reached several reached
    obtain ⟨after, done⟩ : ∃ after, (do ofExcept (.ok ()); advance : Machine Unit)
        { dropped world 1 with store := between.withField ref last value } = .ok () after := ⟨_, rfl⟩
    obtain ⟨assigned, same⟩ := assigned_of_apply top done
    exact ⟨ref, met, between, after, walks, (execute_set_apply top assigns).trans done, assigned, same⟩
  · right
    have unreached (ref : RecordRef) (between : Store) :
        world.store.lookupPath world.env.scopes.elements world.env.function.captures symbol.name
          parts ≠ (.ok (.record ref), between) := fun reached => by
      obtain ⟨met, walks⟩ := Store.lookupPath_eq_ok.mp reached
      exact reaches ⟨ref, met, between, walks⟩
    obtain ⟨cause, store, failed, learns⟩ := Store.assignPath_unreached several unreached
    have assigns : world.store.assign world.env.scopes.elements world.env.function.captures symbol
        value = (.error cause, store) := by
      rw [assign_path isPath split]
      exact failed
    refine ⟨fun ref met between walks => reaches ⟨ref, met, between, walks⟩, cause, _,
      (execute_set_apply top assigns).trans rfl, learns⟩

theorem Assigned.yields {after : World} {ref : RecordRef} {met : List RecordRef} {between : Store}
    (assigned : Assigned world rest after) (isPath : symbol.isPath = true)
    (split : pathParts symbol.name = parts ++ [last])
    (walks : world.store.Walks world.env.scopes.elements world.env.function.captures parts met
      (.record ref) between)
    (same : after.store = between.withField ref last value) (inside : ref < world.store.records.size)
    (new : ref ∉ met) : Yields host perform after symbol value := by
  have scopes : after.env.scopes = world.env.scopes := by rw [assigned.others]
  have function : after.env.function = world.env.function := by rw [assigned.others]
  rw [yields_iff, scopes, function, same, Store.lookup, isPath, if_pos rfl, split]
  exact ⟨_, walks.assigned inside new symbol.name⟩

theorem set_single (isPath : symbol.isPath = true) (split : pathParts symbol.name = [last])
    (top : world.env.data.elements = value :: rest) :
    (world.store.intern last).1.isPath = false ∧
      execute host perform (.set symbol) world =
        execute host perform (.set (world.store.intern last).1)
          { world with store := (world.store.intern last).2 } := by
  have member : last ∈ pathParts symbol.name := by simp [split]
  have plain : (world.store.intern last).1.isPath = false := pathParts_plain member _ _
  have assigns : world.store.assign world.env.scopes.elements world.env.function.captures symbol
      value = (world.store.intern last).2.assign world.env.scopes.elements
        world.env.function.captures (world.store.intern last).1 value := by
    rw [assign_path isPath split, Store.assign, plain]
    rfl
  refine ⟨plain, ?_⟩
  cases changed : (world.store.intern last).2.assign world.env.scopes.elements
      world.env.function.captures (world.store.intern last).1 value with
  | mk bound store =>
      have here : execute host perform (.set symbol) world =
          (do ofExcept bound; advance : Machine Unit) { dropped world 1 with store } :=
        execute_set_apply top (assigns.trans changed)
      have there : execute host perform (.set (world.store.intern last).1)
          { world with store := (world.store.intern last).2 } =
          (do ofExcept bound; advance : Machine Unit) { dropped world 1 with store } :=
        execute_set_apply top changed
      rw [here, there]

theorem set_path_error {stop : Stop} {after : World} (isPath : symbol.isPath = true)
    (split : pathParts symbol.name = parts ++ [last]) (top : world.env.data.elements = value :: rest)
    (failed : execute host perform (.set symbol) world = .error stop after) :
    world.store.Learns after.store := by
  by_cases single : parts = []
  · subst single
    obtain ⟨plain, same⟩ : (world.store.intern last).1.isPath = false ∧
        execute host perform (.set symbol) world = _ := set_single isPath split top
    have ends : WriteEnds { world with store := (world.store.intern last).2 }
        (world.store.intern last).1 _ _ := set_ends host perform plain
    have named : world.store.Learns (world.store.intern last).2 := world.store.intern_learns last
    rw [← same, failed] at ends
    cases ends with
    | noValue => exact named
    | noPlace _ _ unchanged =>
        rw [unchanged]
        exact named
    | refused _ _ _ unchanged =>
        rw [unchanged]
        exact named
  · rcases set_path_cases isPath split single top with
      ⟨_, _, _, _, _, done, _⟩ | ⟨_, cause, store, ended, learns⟩
    · rw [failed] at done
      cases done
    · rw [failed] at ended
      cases ended
      exact learns

end Assign

/-- Assigning along a path of several parts succeeds where getting the path without its last part gives
a record. Then one field of that record is set and nothing else changes, and unless the record was met
before on the path, the path gives the value from then on. A path of one part is assigned to as the
variable of that name. Where an assignment fails, names have been learnt at most. -/
theorem set_path (host : Host) (perform : Perform) {symbol : Symbol} (isPath : symbol.isPath = true)
    {parts : List String} {last : String} (split : pathParts symbol.name = parts ++ [last])
    {world : World} {value : Value} {rest : List Value}
    (top : world.env.data.elements = value :: rest) :
    (parts ≠ [] → ∀ shorter : Symbol, shorter.isPath = true → pathParts shorter.name = parts →
      ((∃ after, execute host perform (.set symbol) world = .ok () after) ↔
        ∃ ref, Yields host perform world shorter (.record ref)) ∧
      ∀ after, execute host perform (.set symbol) world = .ok () after →
        Assigned world rest after ∧ ∃ ref, Yields host perform world shorter (.record ref) ∧
          world.store.SetsField ref last value after.store ∧
          (ref < world.store.records.size → ∀ met between,
            world.store.Walks world.env.scopes.elements world.env.function.captures parts met
              (.record ref) between →
            ref ∉ met → Yields host perform after symbol value)) ∧
    (parts = [] → (world.store.intern last).1.isPath = false ∧
      execute host perform (.set symbol) world =
        execute host perform (.set (world.store.intern last).1)
          { world with store := (world.store.intern last).2 }) ∧
    ∀ stop after, execute host perform (.set symbol) world = .error stop after →
      world.store.Learns after.store := by
  refine ⟨fun several shorter shorterPath shorterParts => ?_, ?_, ?_⟩
  · -- The walk to the last record is the value of the shorter path, if there is such a walk.
    rcases set_path_cases isPath split several top with
      ⟨ref, met, between, after, walks, done, assigned, same⟩ | ⟨unreached, cause, after, failed, _⟩
    · have yields : Yields host perform world shorter (.record ref) :=
        (yields_path shorterPath).mpr ⟨met, between, shorterParts ▸ walks⟩
      refine ⟨⟨fun _ => ⟨ref, yields⟩, fun _ => ⟨after, done⟩⟩, fun other ended => ?_⟩
      rw [done] at ended
      cases ended
      refine ⟨assigned, ref, yields, same ▸ walks.learns.setsField ref last value,
        fun inside passed reached again new => ?_⟩
      rw [walks.unique again] at same
      exact assigned.yields isPath split again same inside new
    · have fails (other : World) : execute host perform (.set symbol) world ≠ .ok () other := by
        rw [failed]
        exact fun same => by cases same
      refine ⟨⟨fun ⟨other, done⟩ => absurd done (fails other), ?_⟩,
        fun other done => absurd done (fails other)⟩
      rintro ⟨ref, yields⟩
      obtain ⟨met, between, walks⟩ := (yields_path shorterPath).mp yields
      exact absurd (shorterParts ▸ walks) (unreached ref met between)
  · rintro rfl
    exact set_single isPath split top
  · exact fun stop after failed => set_path_error isPath split top failed

def pointStore : Store :=
  { Store.empty with
    symbols := .ofNames ["p", "inner"]
    records := #[.empty "Spot",
      ⟨"Point", OrderedMap.empty.set (.symbol ⟨"inner", 1, false⟩) (.record 0)⟩]
    scopes := #[(Scope.empty "global" false).insert 0 (.record 1)] }

def withPoint : World :=
  let world : World := default
  { world with
    store := pointStore
    env := { world.env with
      scopes := Stack.empty.push Store.global
      data := Stack.empty.push (.int 5) } }

theorem withPoint_walks :
    ∃ between, pointStore.Walks withPoint.env.scopes.elements withPoint.env.function.captures
      ["p", "inner"] [1] (.record 0) between := by
  have root : pointStore.intern "p" = (⟨"p", 0, false⟩, pointStore) := by
    have known : pointStore.symbols.idOf? "p" = some 0 := by decide +kernel
    rw [Store.intern, SymbolTable.symbol_of_known known]
  have key : pointStore.intern "inner" = (⟨"inner", 1, false⟩, pointStore) := by
    have known : pointStore.symbols.idOf? "inner" = some 1 := by decide +kernel
    rw [Store.intern, SymbolTable.symbol_of_known known]
  have field : pointStore.field? 1 "inner" = some (.record 0) := by
    rw [Store.field?, key]
    exact (OrderedMap.get?_set _ _ _ _).trans (if_pos (beq_self_eq_true _))
  have found : pointStore.lookupPlain withPoint.env.scopes.elements withPoint.env.function.captures
      (pointStore.intern "p").1 = .ok (.record 1) := by
    rw [root]
    rfl
  refine ⟨_, .start found (.through ?_ .here)⟩
  rw [root]
  exact field

theorem set_path_inner :
    let symbol : Symbol := ⟨".p.inner.z", 3, false⟩
    let reading := Machine.perform .none 0
    pathParts symbol.name = ["p", "inner"] ++ ["z"] ∧
      ∃ after, execute .none reading (.set symbol) withPoint = .ok () after ∧
        pointStore.SetsField 0 "z" (.int 5) after.store ∧
        Yields .none reading after symbol (.int 5) := by
  intro symbol reading
  obtain ⟨between, walks⟩ := withPoint_walks
  have isPath : symbol.isPath = true := by decide +kernel
  have split : pathParts symbol.name = ["p", "inner"] ++ ["z"] := by decide +kernel
  obtain ⟨shorter, shorterPath, shorterParts⟩ : ∃ shorter : Symbol, shorter.isPath = true ∧
      pathParts shorter.name = ["p", "inner"] :=
    ⟨⟨".p.inner", 2, false⟩, by decide +kernel, by decide +kernel⟩
  have leads : Yields .none reading withPoint shorter (.record 0) := by
    rw [yields_path shorterPath, shorterParts]
    exact ⟨[1], between, walks⟩
  obtain ⟨along, _⟩ := set_path .none reading isPath split
    (show withPoint.env.data.elements = [.int 5] from rfl)
  obtain ⟨succeeds, sets⟩ := along (by decide) shorter shorterPath shorterParts
  obtain ⟨after, done⟩ := succeeds.mpr ⟨0, leads⟩
  obtain ⟨_, ref, yields, setsField, found⟩ := sets after done
  obtain ⟨_, first⟩ := yields_iff.mp leads
  obtain ⟨_, second⟩ := yields_iff.mp yields
  obtain rfl : 0 = ref := by
    have same := first.symm.trans second
    cases same
    rfl
  exact ⟨split, after, done, setsField, found (by decide) [1] between walks (by decide)⟩

end StackLisp.Machine
