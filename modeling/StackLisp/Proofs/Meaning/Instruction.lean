import StackLisp.Proofs.Machine.Balance
import StackLisp.Proofs.Meaning.Moment

/-!
What each instruction does, from one moment to the next. Instructions that look at the store or
change it do there what an evaluation does.
-/

namespace StackLisp.Machine

variable {host : Host} {perform : Perform} {site : Site} {memory : Memory} {pc : Nat}
  {data : List Value} {calls : List CallFrame}

theorem onStore_apply {α : Type} {change : Store → α × Store} {world : World} {result : α}
    {store : Store} (changed : change world.store = (result, store)) :
    onStore change world = .ok result { world with store } := by
  simp only [onStore, changed]

theorem tryOnStore_apply {α : Type} {change : Store → Except Error α × Store} {world : World}
    {found : Except Error α} {store : Store} (changed : change world.store = (found, store)) :
    tryOnStore change world = ofExcept found { world with store } := by
  rw [tryOnStore, bind_apply, onStore_apply changed]

section Variables

variable {world : World} {symbol : Symbol}

theorem lookup_apply {found : Except Error Value} {store : Store}
    (looked : world.store.lookup world.env.scopes.elements world.env.function.captures symbol =
      (found, store)) : lookup symbol world = ofExcept found { world with store } := by
  rw [lookup, bind_apply, currentEnv_apply]
  dsimp only
  rw [tryOnStore_apply looked]

theorem execute_put_apply {value : Value} {rest : List Value} {bound : Except Error Unit}
    {store : Store} (top : world.env.data.elements = value :: rest)
    (changed : world.store.bind (innermostScope world.env) symbol value = (bound, store)) :
    execute host perform (.put symbol) world =
      (do ofExcept bound; advance : Machine Unit) { dropped world 1 with store } := by
  have changedHere : (dropped world 1).store.bind (innermostScope (dropped world 1).env) symbol
      value = (bound, store) := changed
  simp only [execute, bind_apply, pop_apply top, currentEnv_apply]
  rw [tryOnStore_apply changedHere]

theorem execute_set_apply {value : Value} {rest : List Value} {bound : Except Error Unit}
    {store : Store} (top : world.env.data.elements = value :: rest)
    (changed : world.store.assign world.env.scopes.elements world.env.function.captures symbol
      value = (bound, store)) :
    execute host perform (.set symbol) world =
      (do ofExcept bound; advance : Machine Unit) { dropped world 1 with store } := by
  have changedHere : (dropped world 1).store.assign (dropped world 1).env.scopes.elements
      (dropped world 1).env.function.captures symbol value = (bound, store) := changed
  simp only [execute, bind_apply, pop_apply top, currentEnv_apply]
  rw [tryOnStore_apply changedHere]

end Variables

theorem Moment.Shown.withStore {moment : Moment} {world : World} (shown : moment.Shown world)
    (store : Store) :
    Moment.Shown { moment with memory := moment.memory.withStore store } { world with store } := by
  obtain ⟨site, memory, pc, data, calls⟩ := shown
  refine ⟨site, ?_, pc, data, calls⟩
  rw [← memory]
  rfl

theorem Moment.Shown.store {moment : Moment} {world : World} (shown : moment.Shown world) :
    world.store = moment.memory.store := congrArg Memory.store shown.memory

theorem Moment.Shown.advance {world : World}
    (shown : Moment.Shown ⟨site, memory, pc, data, calls⟩ world) :
    ∃ after, Machine.advance world = .ok () after ∧
      Moment.Shown ⟨site, memory, pc + 1, data, calls⟩ after := by
  obtain ⟨sameSite, sameMemory, samePc, sameData, sameCalls⟩ := shown
  refine ⟨_, rfl, sameSite, sameMemory, ?_, sameData, sameCalls⟩
  change world.env.pc.map (· + 1) = _
  rw [samePc]
  rfl

theorem Moment.Shown.push {world : World}
    (shown : Moment.Shown ⟨site, memory, pc, data, calls⟩ world) (value : Value) :
    Moment.Shown ⟨site, memory, pc, value :: data, calls⟩ (given world value) := by
  obtain ⟨sameSite, sameMemory, samePc, sameData, sameCalls⟩ := shown
  refine ⟨sameSite, sameMemory, samePc, ?_, sameCalls⟩
  exact congrArg (value :: ·) sameData

theorem Moment.Shown.dropped {world : World}
    (shown : Moment.Shown ⟨site, memory, pc, data, calls⟩ world) (count : Nat) :
    Moment.Shown ⟨site, memory, pc, data.drop count, calls⟩ (Machine.dropped world count) := by
  obtain ⟨sameSite, sameMemory, samePc, sameData, sameCalls⟩ := shown
  refine ⟨sameSite, sameMemory, samePc, ?_, sameCalls⟩
  exact congrArg (List.drop count) sameData

theorem Moment.Shown.pop {world : World} {value : Value}
    (shown : Moment.Shown ⟨site, memory, pc, value :: data, calls⟩ world) :
    ∃ after, Machine.pop world = .ok value after ∧
      Moment.Shown ⟨site, memory, pc, data, calls⟩ after :=
  ⟨_, pop_apply shown.data, shown.dropped 1⟩

theorem Moment.Shown.popMany {world : World} {values : List Value}
    (shown : Moment.Shown ⟨site, memory, pc, values.reverse ++ data, calls⟩ world) :
    ∃ after, Machine.popMany values.length world = .ok values after ∧
      Moment.Shown ⟨site, memory, pc, data, calls⟩ after := by
  have elements : world.env.data.elements = values.reverse ++ data := shown.data
  have size : values.reverse.length = values.length := List.length_reverse
  have enough : values.length ≤ world.env.data.elements.length := by
    rw [elements, List.length_append]
    omega
  have taken : (world.env.data.elements.take values.length).reverse = values := by
    rw [elements, List.take_left' size, List.reverse_reverse]
  have left : (values.reverse ++ data).drop values.length = data := List.drop_left' size
  refine ⟨Machine.dropped world values.length, ?_, ?_⟩
  · rw [popMany_apply enough, taken]
  · have droppedShown := shown.dropped values.length
    rwa [left] at droppedShown

section Values

theorem Moment.Shown.pushed {world : World}
    (shown : Moment.Shown ⟨site, memory, pc, data, calls⟩ world) (value : Value) :
    ∃ after, (do Machine.push value; Machine.advance : Machine Unit) world = .ok () after ∧
      Moment.Shown ⟨site, memory, pc + 1, value :: data, calls⟩ after :=
  (shown.push value).advance

theorem reaches_push {value : Value} (found : site.function.code[pc]? = some (.push value)) :
    Reaches host perform ⟨site, memory, pc, data, calls⟩
      ⟨site, memory, pc + 1, value :: data, calls⟩ :=
  reaches_of_execute found fun _ shown => shown.pushed value

theorem reaches_pop (found : site.function.code[pc]? = some .pop) :
    Reaches host perform ⟨site, memory, pc, data, calls⟩
      ⟨site, memory, pc + 1, data.drop 1, calls⟩ :=
  reaches_of_execute found fun _ shown => (shown.dropped 1).advance

theorem reaches_dup {value : Value} (found : site.function.code[pc]? = some .dup) :
    Reaches host perform ⟨site, memory, pc, value :: data, calls⟩
      ⟨site, memory, pc + 1, value :: value :: data, calls⟩ := by
  refine reaches_of_execute found fun world shown => ?_
  obtain ⟨after, pushed, after_shown⟩ := shown.pushed value
  refine ⟨after, ?_, after_shown⟩
  have top : world.env.data.top? = some value := by
    rw [Stack.top?, shown.data]
    rfl
  simp only [execute, bind_apply, currentEnv_apply, top]
  exact pushed

theorem reaches_jump {target : Nat} (found : site.function.code[pc]? = some (.jump target)) :
    Reaches host perform ⟨site, memory, pc, data, calls⟩ ⟨site, memory, target, data, calls⟩ := by
  refine reaches_of_execute found fun world shown => ⟨_, rfl, ?_⟩
  exact ⟨shown.site, shown.memory, rfl, shown.data, shown.calls⟩

theorem reaches_branch {direction : Bool} {target : Nat} {value : Value}
    (found : site.function.code[pc]? = some (.branch direction target)) :
    Reaches host perform ⟨site, memory, pc, value :: data, calls⟩
      ⟨site, memory, if value.isTruthy = direction then target else pc + 1, data, calls⟩ := by
  refine reaches_of_execute found fun world shown => ?_
  obtain ⟨between, popped, between_shown⟩ := shown.pop
  by_cases taken : value.isTruthy = direction
  · refine ⟨{ between with env := { between.env with pc := some target } }, ?_, ?_⟩
    · simp only [execute, bind_apply, popped, taken, beq_self_eq_true, ↓reduceIte]
      rfl
    · rw [if_pos taken]
      exact ⟨between_shown.site, between_shown.memory, rfl, between_shown.data, between_shown.calls⟩
  · obtain ⟨after, advanced, after_shown⟩ := between_shown.advance
    refine ⟨after, ?_, ?_⟩
    · have notTaken : (value.isTruthy == direction) = false := by simpa using taken
      simp only [execute, bind_apply, popped, notTaken, Bool.false_eq_true, ↓reduceIte]
      exact advanced
    · rw [if_neg taken]
      exact after_shown

end Values

/-! The store. -/

section Store

variable {store : Store}

theorem Moment.Shown.lookup {world : World}
    (shown : Moment.Shown ⟨site, memory, pc, data, calls⟩ world) {symbol : Symbol}
    {found : Except Error Value}
    (looked : memory.store.lookup site.scopes site.function.captures symbol = (found, store)) :
    Machine.lookup symbol world = ofExcept found { world with store } ∧
      Moment.Shown ⟨site, memory.withStore store, pc, data, calls⟩ { world with store } := by
  refine ⟨?_, shown.withStore store⟩
  have sameSite : world.site = site := shown.site
  have sameStore : world.store = memory.store := shown.store
  rw [← sameStore, ← sameSite] at looked
  exact lookup_apply looked

theorem reaches_get {symbol : Symbol} {value : Value}
    (found : site.function.code[pc]? = some (.get symbol))
    (looked : memory.store.lookup site.scopes site.function.captures symbol = (.ok value, store)) :
    Reaches host perform ⟨site, memory, pc, data, calls⟩
      ⟨site, memory.withStore store, pc + 1, value :: data, calls⟩ := by
  refine reaches_of_execute found fun world shown => ?_
  obtain ⟨applied, between_shown⟩ := shown.lookup looked
  obtain ⟨after, pushed, after_shown⟩ := between_shown.pushed value
  refine ⟨after, ?_, after_shown⟩
  rw [execute, bind_apply, applied]
  exact pushed

theorem fails_lookup {instruction : Instr} {symbol : Symbol} {cause : Error}
    {later : Value → Machine Unit}
    (looks : execute host perform instruction = Machine.lookup symbol >>= later)
    (found : site.function.code[pc]? = some instruction)
    (looked : memory.store.lookup site.scopes site.function.captures symbol = (.error cause, store)) :
    Fails host perform ⟨site, memory, pc, data, calls⟩ (.error cause)
      (memory.withStore store) := by
  refine fails_of_execute found fun world shown => ?_
  obtain ⟨applied, between_shown⟩ := shown.lookup looked
  refine ⟨.error cause, { world with store }, ?_, rfl, between_shown.memory⟩
  rw [looks, bind_apply, applied]
  rfl

theorem fails_get {symbol : Symbol} {cause : Error}
    (found : site.function.code[pc]? = some (.get symbol))
    (looked : memory.store.lookup site.scopes site.function.captures symbol = (.error cause, store)) :
    Fails host perform ⟨site, memory, pc, data, calls⟩ (.error cause)
      (memory.withStore store) :=
  fails_lookup rfl found looked

theorem Moment.Shown.innermost {moment : Moment} {world : World} (shown : moment.Shown world) :
    innermostScope world.env = moment.site.innermost := by
  rw [← shown.site]
  rfl

theorem execute_put {world : World} {symbol : Symbol} {value : Value} {bound : Except Error Unit}
    (shown : Moment.Shown ⟨site, memory, pc, value :: data, calls⟩ world)
    (changed : memory.store.bind site.innermost symbol value = (bound, store)) :
    ∃ between, Moment.Shown ⟨site, memory.withStore store, pc, data, calls⟩ between ∧
      execute host perform (.put symbol) world =
        (do ofExcept bound; Machine.advance : Machine Unit) between := by
  have changedHere : world.store.bind (innermostScope world.env) symbol value = (bound, store) := by
    rw [shown.store, shown.innermost]
    exact changed
  exact ⟨_, (shown.dropped 1).withStore store, execute_put_apply shown.data changedHere⟩

theorem execute_set {world : World} {symbol : Symbol} {value : Value} {bound : Except Error Unit}
    (shown : Moment.Shown ⟨site, memory, pc, value :: data, calls⟩ world)
    (changed : memory.store.assign site.scopes site.function.captures symbol value = (bound, store)) :
    ∃ between, Moment.Shown ⟨site, memory.withStore store, pc, data, calls⟩ between ∧
      execute host perform (.set symbol) world =
        (do ofExcept bound; Machine.advance : Machine Unit) between := by
  have sameSite : world.site = site := shown.site
  have changedHere : world.store.assign world.env.scopes.elements world.env.function.captures
      symbol value = (bound, store) := by
    rw [shown.store]
    rw [← sameSite] at changed
    exact changed
  exact ⟨_, (shown.dropped 1).withStore store, execute_set_apply shown.data changedHere⟩

theorem reaches_put {symbol : Symbol} {value : Value}
    (found : site.function.code[pc]? = some (.put symbol))
    (changed : memory.store.bind site.innermost symbol value = (.ok (), store)) :
    Reaches host perform ⟨site, memory, pc, value :: data, calls⟩
      ⟨site, memory.withStore store, pc + 1, data, calls⟩ := by
  refine reaches_of_execute found fun world shown => ?_
  obtain ⟨between, between_shown, executed⟩ := execute_put shown changed
  obtain ⟨after, advanced, after_shown⟩ := between_shown.advance
  exact ⟨after, executed.trans advanced, after_shown⟩

theorem fails_put {symbol : Symbol} {value : Value} {cause : Error}
    (found : site.function.code[pc]? = some (.put symbol))
    (changed : memory.store.bind site.innermost symbol value = (.error cause, store)) :
    Fails host perform ⟨site, memory, pc, value :: data, calls⟩ (.error cause)
      (memory.withStore store) := by
  refine fails_of_execute found fun world shown => ?_
  obtain ⟨between, between_shown, executed⟩ := execute_put shown changed
  exact ⟨.error cause, between, executed, rfl, between_shown.memory⟩

theorem reaches_set {symbol : Symbol} {value : Value}
    (found : site.function.code[pc]? = some (.set symbol))
    (changed : memory.store.assign site.scopes site.function.captures symbol value =
      (.ok (), store)) :
    Reaches host perform ⟨site, memory, pc, value :: data, calls⟩
      ⟨site, memory.withStore store, pc + 1, data, calls⟩ := by
  refine reaches_of_execute found fun world shown => ?_
  obtain ⟨between, between_shown, executed⟩ := execute_set shown changed
  obtain ⟨after, advanced, after_shown⟩ := between_shown.advance
  exact ⟨after, executed.trans advanced, after_shown⟩

theorem fails_set {symbol : Symbol} {value : Value} {cause : Error}
    (found : site.function.code[pc]? = some (.set symbol))
    (changed : memory.store.assign site.scopes site.function.captures symbol value =
      (.error cause, store)) :
    Fails host perform ⟨site, memory, pc, value :: data, calls⟩ (.error cause)
      (memory.withStore store) := by
  refine fails_of_execute found fun world shown => ?_
  obtain ⟨between, between_shown, executed⟩ := execute_set shown changed
  exact ⟨.error cause, between, executed, rfl, between_shown.memory⟩

theorem reaches_closure {ref closed : FunctionRef}
    (found : site.function.code[pc]? = some (.closure ref))
    (made : memory.store.closure site ref = (closed, store)) :
    Reaches host perform ⟨site, memory, pc, data, calls⟩
      ⟨site, memory.withStore store, pc + 1, .function closed :: data, calls⟩ := by
  refine reaches_of_execute found fun world shown => ?_
  obtain ⟨after, pushed, after_shown⟩ := (shown.withStore store).pushed (.function closed)
  refine ⟨after, ?_, after_shown⟩
  have sameSite : world.site = site := shown.site
  have sameStore : world.store = memory.store := shown.store
  rw [Store.closure, ← sameSite, ← sameStore] at made
  simp only [execute, bind_apply, currentEnv_apply]
  rw [onStore_apply made]
  exact pushed

theorem reaches_openScope {ref : ScopeRef} (found : site.function.code[pc]? = some .openScope)
    (made : memory.store.newScope (.empty "let" false) = (ref, store)) :
    Reaches host perform ⟨site, memory, pc, data, calls⟩
      ⟨site.inScope ref, memory.withStore store, pc + 1, data, calls⟩ := by
  refine reaches_of_execute found fun world shown => ?_
  have openedShown : Moment.Shown ⟨site.inScope ref, memory.withStore store, pc, data, calls⟩
      { world with
        store
        env := { world.env with scopes := world.env.scopes.push ref } } := by
    obtain ⟨_, sameMemory, samePc, sameData, sameCalls⟩ := shown.withStore store
    refine ⟨?_, sameMemory, samePc, sameData, sameCalls⟩
    have sameSite : world.site = site := shown.site
    rw [← sameSite]
    rfl
  obtain ⟨after, advanced, after_shown⟩ := openedShown.advance
  refine ⟨after, ?_, after_shown⟩
  have sameStore : world.store = memory.store := shown.store
  rw [← sameStore] at made
  simp only [execute, bind_apply]
  rw [onStore_apply made]
  exact advanced

theorem reaches_closeScope (site : Site) {ref : ScopeRef}
    (found : site.function.code[pc]? = some .closeScope) (notLast : site.scopes ≠ []) :
    Reaches host perform ⟨site.inScope ref, memory, pc, data, calls⟩
      ⟨site, memory, pc + 1, data, calls⟩ := by
  refine reaches_of_execute found fun world shown => ?_
  have scopes : world.env.scopes.elements = ref :: site.scopes := congrArg Site.scopes shown.site
  have closedShown : Moment.Shown ⟨site, memory, pc, data, calls⟩
      { world with env := { world.env with scopes := world.env.scopes.drop 1 } } := by
    obtain ⟨sameSite, sameMemory, samePc, sameData, sameCalls⟩ := shown
    refine ⟨?_, sameMemory, samePc, sameData, sameCalls⟩
    have closed : World.site { world with env := { world.env with scopes := world.env.scopes.drop 1 } } =
        { world.site with scopes := world.env.scopes.elements.drop 1 } := rfl
    rw [closed, sameSite, scopes]
    rfl
  obtain ⟨after, advanced, after_shown⟩ := closedShown.advance
  refine ⟨after, ?_, after_shown⟩
  have notOne : ¬world.env.scopes.size ≤ 1 := by
    have positive := List.length_pos_iff.mpr notLast
    rw [world.env.scopes.size_eq, scopes, List.length_cons]
    omega
  simp only [execute, bind_apply, currentEnv_apply, notOne, ↓reduceIte]
  exact advanced

end Store

end StackLisp.Machine
