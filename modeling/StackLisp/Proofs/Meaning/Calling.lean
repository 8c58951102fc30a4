import StackLisp.Proofs.Meaning.Instruction

/-!
Calls and returns, from one moment to the next. A native function does in one step what it gives an
evaluation; a compiled one starts in a scope of its own, and its caller waits in a frame.
-/

namespace StackLisp.Machine

variable {host : Host} {perform : Perform} {site : Site} {memory : Memory} {pc : Nat}
  {data : List Value} {calls : List CallFrame}

theorem Moment.Shown.observe {moment : Moment} {world : World} (shown : moment.Shown world)
    (event : Event) (values : List Value) :
    ∃ after, Machine.observe event values world = .ok () after ∧
      Moment.Shown
        { moment with memory := moment.memory.observed moment.site.config event values } after := by
  have config : world.config = moment.site.config := congrArg Site.config shown.site
  have observed (journal : Journal) (same : World.memory { world with journal } =
      moment.memory.observed moment.site.config event values) : Moment.Shown
        { moment with memory := moment.memory.observed moment.site.config event values }
        { world with journal } :=
    ⟨shown.site, same, shown.pc, shown.data, shown.calls⟩
  by_cases observing : world.config.observing = true
  · refine ⟨_, ?_, observed { world.journal with
      events := world.journal.events.push (event, values.map world.store.text) } ?_⟩
    · simp only [Machine.observe, bind_apply, currentConfig_apply, observing, ↓reduceIte,
        readStore_apply]
      rfl
    · rw [Memory.observed, ← config, if_pos observing, ← shown.memory]
      rfl
  · refine ⟨_, ?_, observed world.journal ?_⟩
    · simp only [Machine.observe, bind_apply, currentConfig_apply, observing]
      rfl
    · rw [Memory.observed, ← config, if_neg observing, ← shown.memory]

theorem ask_apply {α : Type} (question : Store → Except Error α) (world : World) :
    ask question world = ofExcept (question world.store) world := rfl

theorem bindAll_apply {ref : ScopeRef} {values : List (Symbol × Value)} {world : World}
    {found : Except Error Unit} {store : Store}
    (bound : world.store.bindEach ref values = (found, store)) :
    bindAll ref values world = ofExcept found { world with store } := by
  induction values generalizing world with
  | nil =>
      cases bound
      rfl
  | cons first later ih =>
      obtain ⟨symbol, value⟩ := first
      rw [bindAll, bind_apply]
      rw [Store.bindEach] at bound
      cases changed : world.store.bind ref symbol value with
      | mk result next =>
          rw [tryOnStore_apply changed]
          rw [changed] at bound
          cases result with
          | ok done => exact ih bound
          | error cause =>
              cases bound
              rfl

theorem openScope_apply {name : String} {function : Function} {values : List (Symbol × Value)}
    {world : World} {found : Except Error ScopeRef} {store : Store}
    (made : (match (world.store.newScope (.empty name true)).2.bindEach
        (world.store.newScope (.empty name true)).1 values with
      | (.ok _, store) => (.ok (world.store.newScope (.empty name true)).1, store)
      | (.error cause, store) => (.error cause, store)) = (found, store)) :
    (do
      let scope ← onStore fun store => store.newScope (.empty name true)
      bindAll scope values
      enter function scope : Machine Unit) world =
      (do enter function (← ofExcept found) : Machine Unit) { world with store } := by
  have newScope : onStore (fun store => store.newScope (.empty name true)) world =
      .ok (world.store.newScope (.empty name true)).1
        { world with store := (world.store.newScope (.empty name true)).2 } := rfl
  rw [bind_apply, newScope]
  cases bound : (world.store.newScope (.empty name true)).2.bindEach
      (world.store.newScope (.empty name true)).1 values with
  | mk result next =>
      rw [bound] at made
      have applied : bindAll (world.store.newScope (.empty name true)).1 values
          { world with store := (world.store.newScope (.empty name true)).2 } =
            ofExcept result { world with store := next } := bindAll_apply bound
      simp only [bind_apply, applied]
      cases result with
      | ok done =>
          cases made
          rfl
      | error cause =>
          cases made
          rfl

theorem callScope_apply {name : String} {parameters : List Parameter} {rest : Option Symbol}
    {arguments : List Value} {function : Function} {world : World} {found : Except Error ScopeRef}
    {store : Store}
    (made : world.store.callScope name parameters rest arguments = (found, store)) :
    (do
      let values ← boundValues name parameters rest arguments
      let scope ← onStore fun store => store.newScope (.empty name true)
      bindAll scope values
      enter function scope : Machine Unit) world =
      (do enter function (← ofExcept found) : Machine Unit) { world with store } := by
  rw [bind_apply, boundValues, bind_apply, ask_apply]
  rw [Store.callScope] at made
  cases bound : bindArguments world.store name parameters rest arguments with
  | error cause =>
      rw [bound] at made
      cases made
      rfl
  | ok arranged =>
      rw [bound] at made
      cases rest with
      | none => exact openScope_apply made
      | some symbol => exact openScope_apply made

theorem Moment.Shown.entered {world : World} {function : Function} {scope : ScopeRef}
    (shown : Moment.Shown ⟨site, memory, pc, data, calls⟩ world) :
    ∃ after, enter function scope world = .ok () after ∧
      Moment.Shown ⟨site.called function scope, memory, 0, data,
        ⟨site.function, pc + 1, site.scopes.length, function.name⟩ :: calls⟩ after := by
  obtain ⟨sameSite, sameMemory, samePc, sameData, sameCalls⟩ := shown
  dsimp only at sameSite samePc sameCalls
  refine ⟨_, rfl, ?_, sameMemory, rfl, sameData, ?_⟩
  · rw [← sameSite]
    rfl
  · change ⟨world.env.function, world.env.pc.getD 0 + 1, world.env.scopes.size, function.name⟩ ::
      world.env.calls.elements = _
    rw [samePc, sameCalls, world.env.scopes.size_eq, ← sameSite]
    rfl

variable {function : Function} {arguments : List Value}

theorem callCompiled_apply {world : World} {parameters : List Parameter} {rest : Option Symbol}
    {code : Array Instr} {captures : List Capture}
    (made : function.body = .compiled parameters rest code captures)
    (shown : Moment.Shown ⟨site, memory, pc, data, calls⟩ world) :
    ∃ between, Moment.Shown ⟨site, memory.observed site.config (.called function.name arguments)
        arguments, pc, data, calls⟩ between ∧
      callFunction host perform function arguments world =
        (if site.config.maxCallDepth ≤ site.depth then
          fail (.runtime (.callDepth site.config.maxCallDepth function.name))
        else do
          let values ← boundValues function.name parameters rest arguments
          let scope ← onStore fun store => store.newScope (.empty function.name true)
          bindAll scope values
          enter function scope : Machine Unit) between := by
  obtain ⟨between, observed, between_shown⟩ := shown.observe (.called function.name arguments) arguments
  refine ⟨between, between_shown, ?_⟩
  have config : between.config = site.config := congrArg Site.config between_shown.site
  have depth : between.env.calls.size = site.depth := congrArg Site.depth between_shown.site
  rw [callFunction, bind_apply, observeCall, observed]
  simp only [made, bind_apply, currentConfig_apply, currentEnv_apply, config, depth]
  by_cases deep : site.config.maxCallDepth ≤ site.depth
  · simp only [deep, ↓reduceIte]
    rfl
  · simp only [deep, ↓reduceIte]

def Leads (body : Machine Unit) (start finish : Moment) : Prop :=
  ∀ world, start.Shown world → ∃ after, body world = .ok () after ∧ finish.Shown after

def Breaks (body : Machine Unit) (start : Moment) (stop : Stop) (memory : Memory) : Prop :=
  ∀ world, start.Shown world → ∃ found after, body world = .error found after ∧
    found.untraced = stop.untraced ∧ after.memory = memory

variable {parameters : List Parameter} {rest : Option Symbol} {code : Array Instr}
  {captures : List Capture} {store : Store}

theorem leads_compiled {ref : ScopeRef} (made : function.body = .compiled parameters rest code captures)
    (room : site.depth < site.config.maxCallDepth)
    (opened : (memory.observed site.config (.called function.name arguments) arguments).store.callScope
      function.name parameters rest arguments = (.ok ref, store)) :
    Leads (callFunction host perform function arguments) ⟨site, memory, pc, data, calls⟩
      ⟨site.called function ref,
        (memory.observed site.config (.called function.name arguments) arguments).withStore store, 0,
        data, ⟨site.function, pc + 1, site.scopes.length, function.name⟩ :: calls⟩ := by
  intro world shown
  obtain ⟨between, between_shown, applied⟩ := callCompiled_apply made shown
  obtain ⟨after, entered, after_shown⟩ := (between_shown.withStore store).entered
  refine ⟨after, ?_, after_shown⟩
  rw [applied, if_neg (Nat.not_le_of_lt room)]
  rw [← between_shown.store] at opened
  rw [callScope_apply opened]
  exact entered

theorem breaks_compiled {cause : Error}
    (made : function.body = .compiled parameters rest code captures)
    (room : site.depth < site.config.maxCallDepth)
    (opened : (memory.observed site.config (.called function.name arguments) arguments).store.callScope
      function.name parameters rest arguments = (.error cause, store)) :
    Breaks (callFunction host perform function arguments) ⟨site, memory, pc, data, calls⟩
      (.error cause)
      ((memory.observed site.config (.called function.name arguments) arguments).withStore store) := by
  intro world shown
  obtain ⟨between, between_shown, applied⟩ := callCompiled_apply made shown
  refine ⟨.error cause, { between with store }, ?_, rfl, (between_shown.withStore store).memory⟩
  rw [applied, if_neg (Nat.not_le_of_lt room)]
  rw [← between_shown.store] at opened
  rw [callScope_apply opened]
  rfl

theorem breaks_tooDeep (made : function.body = .compiled parameters rest code captures)
    (deep : site.config.maxCallDepth ≤ site.depth) :
    Breaks (callFunction host perform function arguments) ⟨site, memory, pc, data, calls⟩
      (.error (.runtime (.callDepth site.config.maxCallDepth function.name)))
      (memory.observed site.config (.called function.name arguments) arguments) := by
  intro world shown
  obtain ⟨between, between_shown, applied⟩ := callCompiled_apply made shown
  refine ⟨_, between, ?_, rfl, between_shown.memory⟩
  rw [applied, if_pos deep]
  rfl

theorem callNative_apply {world : World} {key : NativeKey} {arity : Arity} {builder : Bool}
    (made : function.body = .native key arity builder)
    (shown : Moment.Shown ⟨site, memory, pc, data, calls⟩ world) :
    ∃ between, Moment.Shown ⟨site, memory.observed site.config (.called function.name arguments)
        arguments, pc, data, calls⟩ between ∧
      callFunction host perform function arguments world =
        (do
          ofExcept (arity.check function.name arguments.length)
          let result ← callNative host perform function.name key arguments
          observeReturn function.name result
          push result
          advance : Machine Unit) between := by
  obtain ⟨between, observed, between_shown⟩ := shown.observe (.called function.name arguments) arguments
  refine ⟨between, between_shown, ?_⟩
  rw [callFunction, bind_apply, observeCall, observed]
  simp only [made]

variable {key : NativeKey} {arity : Arity} {builder : Bool}

theorem breaks_argCount {cause : Error} (made : function.body = .native key arity builder)
    (refused : arity.check function.name arguments.length = .error cause) :
    Breaks (callFunction host perform function arguments) ⟨site, memory, pc, data, calls⟩
      (.error cause) (memory.observed site.config (.called function.name arguments) arguments) := by
  intro world shown
  obtain ⟨between, between_shown, applied⟩ := callNative_apply made shown
  refine ⟨.error cause, between, ?_, rfl, between_shown.memory⟩
  rw [applied, refused]
  rfl

theorem leads_native {value : Value} {after : Memory}
    (made : function.body = .native key arity builder)
    (accepted : arity.check function.name arguments.length = .ok ())
    (gives : Gives site (memory.observed site.config (.called function.name arguments) arguments)
      (callNative host perform function.name key arguments) value after) :
    Leads (callFunction host perform function arguments) ⟨site, memory, pc, data, calls⟩
      ⟨site, after.observed site.config (.returned function.name value) [value], pc + 1,
        value :: data, calls⟩ := by
  intro world shown
  obtain ⟨between, between_shown, applied⟩ := callNative_apply made shown
  obtain ⟨ended, called, config, env, ended_memory⟩ :=
    gives between between_shown.site between_shown.memory
  have ended_shown : Moment.Shown ⟨site, after, pc, data, calls⟩ ended := by
    obtain ⟨sameSite, _, samePc, sameData, sameCalls⟩ := between_shown
    refine ⟨?_, ended_memory, ?_, ?_, ?_⟩
    · rw [World.site, config, env]
      exact sameSite
    all_goals rwa [env]
  obtain ⟨returned, observed, returned_shown⟩ :=
    ended_shown.observe (.returned function.name value) [value]
  obtain ⟨last, pushed, last_shown⟩ := returned_shown.pushed value
  refine ⟨last, ?_, last_shown⟩
  rw [applied, accepted]
  simp only [ofExcept, bind_apply, pure_apply, called, observeReturn, observed]
  exact pushed

theorem breaks_native {stop : Stop} {after : Memory}
    (made : function.body = .native key arity builder)
    (accepted : arity.check function.name arguments.length = .ok ())
    (halts : Halts site (memory.observed site.config (.called function.name arguments) arguments)
      (callNative host perform function.name key arguments) stop after) :
    Breaks (callFunction host perform function arguments) ⟨site, memory, pc, data, calls⟩ stop
      after := by
  intro world shown
  obtain ⟨between, between_shown, applied⟩ := callNative_apply made shown
  obtain ⟨found, ended, failed, same, left⟩ := halts between between_shown.site between_shown.memory
  refine ⟨found, ended, ?_, same, left⟩
  rw [applied, accepted]
  simp only [ofExcept, bind_apply, pure_apply, failed]

theorem reaches_ret {ref : ScopeRef} {value : Value} {resume : Nat} {callee : Function}
    (found : callee.code[pc]? = some .ret) (base : site.base ≤ site.depth)
    (depth : calls.length = site.depth) :
    Reaches host perform
      ⟨site.called callee ref, memory, pc, value :: data,
        ⟨site.function, resume, site.scopes.length, callee.name⟩ :: calls⟩
      ⟨site, memory.observed site.config (.returned callee.name value) [value], resume,
        value :: data, calls⟩ := by
  refine reaches_of_execute found fun world shown => ?_
  obtain ⟨left, popped, leftCalls⟩ := pop?_cons shown.calls
  have sameSite : world.site = site.called callee ref := shown.site
  have inside : ¬world.env.calls.size ≤ world.env.base := by
    have calledDepth : world.env.calls.size = site.depth + 1 := congrArg Site.depth sameSite
    have sameBase : world.env.base = site.base := congrArg Site.base sameSite
    omega
  have top : world.env.data.top?.getD .nil = value := by
    rw [Stack.top?, shown.data]
    rfl
  obtain ⟨observed, noted, observed_shown⟩ := shown.observe (.returned callee.name value) [value]
  refine ⟨{ observed with env := { observed.env with
      calls := left
      scopes := observed.env.scopes.truncate site.scopes.length
      function := site.function
      pc := some resume } }, ?_, ?_, observed_shown.memory, rfl, observed_shown.data, leftCalls⟩
  · simp only [execute, returnToCaller, bind_apply, currentEnv_apply, inside, ↓reduceIte, popped, top,
      observeReturn, noted]
    rfl
  · have observedSite : observed.site = site.called callee ref := observed_shown.site
    have scopes : observed.env.scopes.elements = ref :: site.scopes :=
      congrArg Site.scopes observedSite
    have truncated : (observed.env.scopes.truncate site.scopes.length).elements = site.scopes := by
      rw [Stack.truncate, observed.env.scopes.size_eq, scopes]
      simp [Stack.drop, scopes]
    have leftDepth : left.size = site.depth := by rw [left.size_eq, leftCalls, depth]
    have parts : World.site { observed with env := { observed.env with
        calls := left
        scopes := observed.env.scopes.truncate site.scopes.length
        function := site.function
        pc := some resume } } =
          { observed.site with
            scopes := (observed.env.scopes.truncate site.scopes.length).elements
            function := site.function
            depth := left.size } := rfl
    rw [parts, truncated, leftDepth, observedSite]
    rfl

/-! Instructions that call. -/

section Instructions

variable {symbol : Symbol} {ref : FunctionRef} {finish : Moment} {stop : Stop} {after : Memory}

theorem execute_call {world : World}
    (looked : memory.store.lookup site.scopes site.function.captures symbol =
      (.ok (.function ref), store))
    (shown : Moment.Shown ⟨site, memory, pc, arguments.reverse ++ data, calls⟩ world) :
    ∃ between, Moment.Shown ⟨site, memory.withStore store, pc, data, calls⟩ between ∧
      execute host perform (.call symbol arguments.length) world =
        callFunction host perform (store.function ref) arguments between := by
  obtain ⟨applied, found_shown⟩ := shown.lookup looked
  obtain ⟨between, popped, between_shown⟩ := found_shown.popMany
  refine ⟨between, between_shown, ?_⟩
  have sameStore : between.store = store := between_shown.store
  simp only [execute, bind_apply, applied, ofExcept, pure_apply, popped, readStore_apply, sameStore]

theorem reaches_call
    (found : site.function.code[pc]? = some (.call symbol arguments.length))
    (looked : memory.store.lookup site.scopes site.function.captures symbol =
      (.ok (.function ref), store))
    (leads : Leads (callFunction host perform (store.function ref) arguments)
      ⟨site, memory.withStore store, pc, data, calls⟩ finish) :
    Reaches host perform ⟨site, memory, pc, arguments.reverse ++ data, calls⟩ finish := by
  refine reaches_of_execute found fun world shown => ?_
  obtain ⟨between, between_shown, executed⟩ := execute_call looked shown
  obtain ⟨ended, called, ended_shown⟩ := leads between between_shown
  exact ⟨ended, executed.trans called, ended_shown⟩

theorem fails_call
    (found : site.function.code[pc]? = some (.call symbol arguments.length))
    (looked : memory.store.lookup site.scopes site.function.captures symbol =
      (.ok (.function ref), store))
    (breaks : Breaks (callFunction host perform (store.function ref) arguments)
      ⟨site, memory.withStore store, pc, data, calls⟩ stop after) :
    Fails host perform ⟨site, memory, pc, arguments.reverse ++ data, calls⟩ stop after := by
  refine fails_of_execute found fun world shown => ?_
  obtain ⟨between, between_shown, executed⟩ := execute_call looked shown
  obtain ⟨cause, ended, called, same, left⟩ := breaks between between_shown
  exact ⟨cause, ended, executed.trans called, same, left⟩

theorem fails_callUnbound {cause : Error} {count : Nat}
    (found : site.function.code[pc]? = some (.call symbol count))
    (looked : memory.store.lookup site.scopes site.function.captures symbol = (.error cause, store)) :
    Fails host perform ⟨site, memory, pc, data, calls⟩ (.error cause) (memory.withStore store) :=
  fails_lookup rfl found looked

theorem fails_callOther {other : Value} {count : Nat}
    (found : site.function.code[pc]? = some (.call symbol count))
    (looked : memory.store.lookup site.scopes site.function.captures symbol = (.ok other, store))
    (noFunction : ∀ ref, other ≠ .function ref) :
    Fails host perform ⟨site, memory, pc, data, calls⟩
      (.error (.type (.namedNotFunction symbol.name (store.kindOf other))))
      (memory.withStore store) := by
  refine fails_of_execute found fun world shown => ?_
  obtain ⟨applied, between_shown⟩ := shown.lookup looked
  refine ⟨.error (.type (.namedNotFunction symbol.name (store.kindOf other))), { world with store },
    ?_, rfl, between_shown.memory⟩
  rw [execute, bind_apply, applied]
  cases other with
  | function ref => exact absurd rfl (noFunction ref)
  | _ => rfl

theorem execute_dispatch {world : World} {callee : Value}
    (shown : Moment.Shown ⟨site, memory, pc, arguments.reverse ++ callee :: data, calls⟩ world) :
    ∃ between, Moment.Shown ⟨site, memory, pc, data, calls⟩ between ∧
      execute host perform (.dispatch arguments.length) world =
        (match callee with
          | .function ref => callFunction host perform (memory.store.function ref) arguments
          | other => fail (.type (.notCallable (memory.store.kindOf other) (memory.store.text other))) :
          Machine Unit) between := by
  obtain ⟨taken, poppedMany, taken_shown⟩ := shown.popMany
  obtain ⟨between, popped, between_shown⟩ := taken_shown.pop
  refine ⟨between, between_shown, ?_⟩
  have sameStore : between.store = memory.store := between_shown.store
  simp only [execute, bind_apply, poppedMany, popped]
  rw [← sameStore]
  cases callee with
  | function ref => rfl
  | _ => rfl

theorem reaches_dispatch
    (found : site.function.code[pc]? = some (.dispatch arguments.length))
    (leads : Leads (callFunction host perform (memory.store.function ref) arguments)
      ⟨site, memory, pc, data, calls⟩ finish) :
    Reaches host perform ⟨site, memory, pc, arguments.reverse ++ .function ref :: data, calls⟩
      finish := by
  refine reaches_of_execute found fun world shown => ?_
  obtain ⟨between, between_shown, executed⟩ := execute_dispatch shown
  obtain ⟨ended, called, ended_shown⟩ := leads between between_shown
  exact ⟨ended, executed.trans called, ended_shown⟩

theorem fails_dispatch
    (found : site.function.code[pc]? = some (.dispatch arguments.length))
    (breaks : Breaks (callFunction host perform (memory.store.function ref) arguments)
      ⟨site, memory, pc, data, calls⟩ stop after) :
    Fails host perform ⟨site, memory, pc, arguments.reverse ++ .function ref :: data, calls⟩ stop
      after := by
  refine fails_of_execute found fun world shown => ?_
  obtain ⟨between, between_shown, executed⟩ := execute_dispatch shown
  obtain ⟨cause, ended, called, same, left⟩ := breaks between between_shown
  exact ⟨cause, ended, executed.trans called, same, left⟩

theorem fails_dispatchOther {other : Value}
    (found : site.function.code[pc]? = some (.dispatch arguments.length))
    (noFunction : ∀ ref, other ≠ .function ref) :
    Fails host perform ⟨site, memory, pc, arguments.reverse ++ other :: data, calls⟩
      (.error (.type (.notCallable (memory.store.kindOf other) (memory.store.text other)))) memory := by
  refine fails_of_execute found fun world shown => ?_
  obtain ⟨between, between_shown, executed⟩ := execute_dispatch shown
  refine ⟨_, between, executed.trans ?_, rfl, between_shown.memory⟩
  cases other with
  | function ref => exact absurd rfl (noFunction ref)
  | _ => rfl

end Instructions

end StackLisp.Machine
