import StackLisp.Proofs.Machine.Telling

/-!
What a step tells of. A call of a native function is told of with its return, and its value is handed
to the caller in the same step. A call of a compiled function is told of when it is entered; its
return is told of when it is left, with the value that its caller finds on the stack.
-/

namespace StackLisp

structure World.Answered (world after : World) (value : Value) : Prop where
  told : world.Calls after value
  calls : after.env.calls = world.env.calls
  value : after.env.data.elements.head? = some value
  function : after.env.function = world.env.function
  pc : after.env.pc = world.env.pc.map (· + 1)

structure World.Entered (world after : World) (frame : CallFrame) : Prop where
  told : ∃ arguments, after.events = world.events ++ [.called frame.callee arguments]
  calls : after.env.calls.elements = frame :: world.env.calls.elements
  callee : after.env.function.name = frame.callee
  caller : frame.function = world.env.function
  resume : world.env.pc.map (· + 1) = some frame.resume

structure World.Returned (world after : World) (frame : CallFrame) (value : Value) : Prop where
  told : after.events = world.events ++ [.returned frame.callee value]
  calls : world.env.calls.elements = frame :: after.env.calls.elements
  value : after.env.data.elements.head? = some value
  function : after.env.function = frame.function
  pc : after.env.pc = some frame.resume

structure World.Alike (world between : World) : Prop extends world.Quiet between where
  function : between.env.function = world.env.function
  pc : between.env.pc = world.env.pc

theorem World.Alike.refl (world : World) : world.Alike world := ⟨⟨rfl, rfl⟩, rfl, rfl⟩

theorem World.Unheard.alike {world between : World} (unheard : world.Unheard between) :
    world.Alike between := by
  have env := unheard.steady.env
  exact ⟨⟨unheard.events, by rw [env]⟩, by rw [env], by rw [env]⟩

theorem World.Alike.withData {world between : World} (alike : world.Alike between)
    {data : Stack Value} : world.Alike { between with env := { between.env with data } } :=
  ⟨⟨alike.events, alike.calls⟩, alike.function, alike.pc⟩

theorem World.Alike.inOrder {world between : World} (alike : world.Alike between) :
    world.InOrder between := ⟨[], World.opens_of_eq alike.events⟩

theorem World.Answered.since {world between after : World} {value : Value}
    (alike : world.Alike between) (answered : between.Answered after value) :
    world.Answered after value := by
  obtain ⟨⟨name, arguments, inner, events, closed⟩, calls, top, function, pc⟩ := answered
  exact ⟨⟨name, arguments, inner, by rw [events, alike.events], closed⟩, calls.trans alike.calls, top,
    function.trans alike.function, by rw [pc, alike.pc]⟩

theorem World.Entered.since {world between after : World} {frame : CallFrame}
    (alike : world.Alike between) (entered : between.Entered after frame) :
    world.Entered after frame := by
  obtain ⟨⟨arguments, events⟩, calls, callee, caller, resume⟩ := entered
  exact ⟨⟨arguments, by rw [events, alike.events]⟩, by rw [calls, alike.calls], callee,
    caller.trans alike.function, by rw [← alike.pc, resume]⟩

def World.Called (world after : World) : Prop :=
  (∃ value, world.Answered after value) ∨ ∃ frame, world.Entered after frame

theorem World.Called.since {world between after : World} (alike : world.Alike between)
    (called : between.Called after) : world.Called after := by
  rcases called with ⟨value, answered⟩ | ⟨frame, entered⟩
  · exact .inl ⟨value, answered.since alike⟩
  · exact .inr ⟨frame, entered.since alike⟩

def Told (world : World) (instr : Instr) (after : World) : Prop :=
  match instr with
  | .call _ _ => world.Called after
  | .dispatch _ => world.Called after
  | .ret => ∃ frame value, world.Returned after frame value
  | _ => world.Quiet after

theorem Told.cases {world after : World} {instr : Instr} (told : Told world instr after) :
    world.Quiet after ∨ (∃ value, world.Answered after value) ∨
      (∃ frame, world.Entered after frame) ∨ ∃ frame value, world.Returned after frame value := by
  cases instr with
  | call symbol count => exact .inr (told.imp id .inl)
  | dispatch count => exact .inr (told.imp id .inl)
  | ret => exact .inr (.inr (.inr told))
  | _ => exact .inl told

theorem Told.since {world between after : World} {instr : Instr} (alike : world.Alike between)
    (told : Told between instr after) : Told world instr after := by
  cases instr with
  | call symbol count => exact World.Called.since alike told
  | dispatch count => exact World.Called.since alike told
  | ret =>
      obtain ⟨frame, value, events, calls, top, function, pc⟩ := told
      exact ⟨frame, value, by rw [events, alike.events], by rw [← alike.calls, calls], top, function,
        pc⟩
  | _ =>
      obtain ⟨events, calls⟩ := told
      exact ⟨events.trans alike.events, calls.trans alike.calls⟩

/-- A call returns the one value that its function leaves. -/
theorem Ground.Under.returns {ground : Ground} {store : Store} {function : Function} {place : Nat}
    {data : List Value} {scopes : List ScopeRef} {calls : List CallFrame}
    (under : ground.Under store function place data scopes calls)
    (found : function.code[place]? = some .ret) : ∃ value below, data = value :: below := by
  cases under with
  | own reaches =>
      rw [Ground.code_at, ground.code] at found
      exact absurd found Ground.ret_unfit
  | called code height reaches boundary waits =>
      rw [Ground.code_at, code] at found
      rcases Nat.lt_or_eq_of_le reaches.inside with inside | last
      · rw [List.getElem?_append_left inside] at found
        exact absurd found Ground.ret_unfit
      · obtain ⟨own, rfl, size⟩ := reaches.values
        rw [last, height] at size
        obtain ⟨value, rfl⟩ := List.length_eq_one_iff.mp size
        exact ⟨value, _, rfl⟩

namespace Machine

section Silent

variable {α : Type}

theorem silent_pure (value : α) : Silent (pure value) := silent_of_same fun _ => rfl

theorem silent_fail (cause : Error) : Silent (fail cause : Machine α) := silent_of_same fun _ => rfl

theorem silent_currentEnv : Silent currentEnv := silent_of_same fun _ => rfl

theorem silent_onEnv {change : Env → α × Env} (kept : ∀ env, (change env).2.calls = env.calls) :
    Silent (onEnv change) := fun world => ⟨rfl, kept world.env⟩

theorem silent_modifyEnv {change : Env → Env} (kept : ∀ env, (change env).calls = env.calls) :
    Silent (modifyEnv change) := fun world => ⟨rfl, kept world.env⟩

theorem silent_push (value : Value) : Silent (push value) := silent_modifyEnv fun _ => rfl

theorem silent_advance : Silent advance := silent_modifyEnv fun _ => rfl

theorem silent_jump (target : Nat) : Silent (jump target) := silent_modifyEnv fun _ => rfl

theorem silent_pop : Silent pop := by
  refine (silent_onEnv fun env => ?_).bind fun popped => ?_
  · split <;> rfl
  · cases popped with
    | some value => exact silent_pure value
    | none => exact silent_fail _

theorem silent_execute (host : Host) (perform : Perform) {instr : Instr}
    (notCall : ∀ symbol count, instr ≠ .call symbol count)
    (notDispatch : ∀ count, instr ≠ .dispatch count) (notRet : instr ≠ .ret) :
    Silent (execute host perform instr) := by
  cases instr with
  | push value => exact (silent_push value).bind fun _ => silent_advance
  | pop => exact Silent.bind (fun _ => ⟨rfl, rfl⟩) fun _ => silent_advance
  | dup =>
      refine silent_currentEnv.bind fun env => ?_
      dsimp only
      split
      · exact (silent_push _).bind fun _ => silent_advance
      · exact (silent_fail _).bind fun _ => silent_advance
  | get symbol =>
      exact (tame_lookup symbol).silent.bind fun value =>
        (silent_push value).bind fun _ => silent_advance
  | put symbol =>
      refine silent_pop.bind fun value => silent_currentEnv.bind fun env => ?_
      exact (tame_tryOnStore (fun store => store.bind_harmless _ _ _)
        fun store => store.bind_keeps _ _ _).silent.bind fun _ => silent_advance
  | set symbol =>
      refine silent_pop.bind fun value => silent_currentEnv.bind fun env => ?_
      exact (tame_tryOnStore (fun store => store.assign_harmless _ _ _ _)
        fun store => store.assign_keeps _ _ _ _).silent.bind fun _ => silent_advance
  | call symbol count => exact absurd rfl (notCall symbol count)
  | dispatch count => exact absurd rfl (notDispatch count)
  | jump target => exact silent_jump target
  | branch direction target =>
      refine silent_pop.bind fun value => ?_
      split
      · exact silent_jump target
      · exact silent_advance
  | ret => exact absurd rfl notRet
  | closure ref =>
      refine silent_currentEnv.bind fun env => Silent.bind (fun _ => ⟨rfl, rfl⟩) fun closed => ?_
      exact (silent_push _).bind fun _ => silent_advance
  | openScope =>
      refine Silent.bind (fun _ => ⟨rfl, rfl⟩) fun ref => ?_
      exact Silent.bind (fun _ => ⟨rfl, rfl⟩) fun _ => silent_advance
  | closeScope =>
      refine silent_currentEnv.bind fun env => ?_
      have closed : Silent (do
          modifyEnv fun env => { env with scopes := env.scopes.drop 1 }
          advance) := Silent.bind (fun _ => ⟨rfl, rfl⟩) fun _ => silent_advance
      split
      · exact (silent_fail _).bind fun _ => closed
      · exact closed
  | leave exit => exact silent_fail _

end Silent

section Calls

variable {host : Host} {origin base world : World} {watched ordinary : Perform}

theorem tells_native (spec : RunSpec .observed ordinary ordinary)
    (telling : TellSpec origin watched ordinary) (staged : Stage.observed.holds world)
    (ordered : origin.InOrder world) {name : String} {arguments : List Value}
    (events : world.events = base.events ++ [.called name arguments]) (native : Standard)
    {β : Type} {watchedLater ordinaryLater : Value → Unit → Machine β} {told : β → World → Prop}
    (later : ∀ result after, world.Steady after → base.Calls after result →
      Tells base (watchedLater result ()) (ordinaryLater result ()) after told) :
    Tells base
      (native.call watched arguments >>= fun result =>
        observeReturn name result >>= watchedLater result)
      (native.call ordinary arguments >>= fun result =>
        observeReturn name result >>= ordinaryLater result)
      world told := by
  have opened : base.Opens world [name] :=
    World.Opens.called (World.opens_of_eq rfl) events
  have tame := native.tame_call arguments
  refine Tells.bind ((((tame.tells spec telling staged ordered).and
    (tame.faultless spec staged)).since ⟨[name], opened⟩).mono ?_)
  rintro result ended ⟨⟨_, steady⟩, inner, innerEvents, closed⟩
  obtain ⟨journal, observed, kept, returned⟩ :=
    observe_events (.returned name result) [result] (Stage.observed.steady staged steady)
  refine Tells.bind (tells_of_ok observed (later result _ (steady.trans kept) ?_))
  refine ⟨name, arguments, inner, ?_, closed⟩
  rw [returned, innerEvents, events]
  simp

variable {ground : Ground} {start : World}

theorem tells_callCompiled (based : Based .observed ground start)
    (awaiting : Awaiting ground start world) {function : Function} (generated : function.Generated)
    (arguments : List Value) :
    Tells world (callFunction host watched function arguments)
      (callFunction host ordinary function arguments) world
      fun _ after => ∃ frame, world.Entered after frame := by
  obtain ⟨parameters, rest, body, captures, _, made⟩ := generated
  obtain ⟨journal, observed, steady, events⟩ :=
    observe_events (.called function.name arguments) arguments (awaiting.holds based)
  have ready := steady.ready awaiting.follows.ready
  have opened := World.Opens.called (World.opens_of_eq rfl) events
  unfold callFunction
  rw [made]
  refine Tells.bind (tells_of_ok observed ?_)
  refine Tells.bind (tells_of_ok (currentConfig_apply _) ?_)
  refine Tells.bind (tells_of_ok (currentEnv_apply _) ?_)
  dsimp only
  split
  · exact Tells.bind (tells_fail ⟨_, opened⟩)
  · refine (tame_boundValues _ _ _ _).tellsBefore (.refl ready) ready ⟨_, opened⟩
      fun values bound unheard => ?_
    refine (tame_onStore fun store => store.newScope_keeps _).tellsBefore unheard ready ⟨_, opened⟩
      fun scope wider unheard => ?_
    refine (tame_bindAll scope values).tellsBefore unheard ready ⟨_, opened⟩
      fun _ filled unheard => ?_
    have env : filled.env = world.env := unheard.steady.env.trans steady.env
    obtain ⟨place, pc, _⟩ := (awaiting .nil).leads
    replace pc : world.env.pc = some place := pc
    let frame : CallFrame :=
      ⟨filled.env.function, filled.env.pc.getD 0 + 1, filled.env.scopes.size, function.name⟩
    refine tells_of_ok rfl ⟨frame, ⟨arguments, unheard.events.trans events⟩, ?_, rfl, ?_, ?_⟩
    · rw [← env]
      rfl
    · rw [← env]
    · simp [frame, env, pc]

theorem tells_callNative (spec : RunSpec .observed ordinary ordinary)
    (telling : TellSpec origin watched ordinary) (based : Based .observed ground start)
    (awaiting : Awaiting ground start world) (ordered : origin.InOrder world) {function : Function}
    {native : Standard} {arity : Arity} {builder : Bool}
    (made : function.body = .native (.standard native) arity builder) (arguments : List Value) :
    Tells world (callFunction host watched function arguments)
      (callFunction host ordinary function arguments) world
      fun _ after => ∃ value, world.Answered after value := by
  have staged := awaiting.holds based
  obtain ⟨journal, observed, steady, events⟩ :=
    observe_events (.called function.name arguments) arguments staged
  replace staged := Stage.observed.steady staged steady
  have opened := World.Opens.called (World.opens_of_eq rfl) events
  unfold callFunction
  rw [made]
  refine Tells.bind (tells_of_ok observed ?_)
  refine (tame_ofExcept (arity_harmless _ _ _)).tellsBefore (.refl staged.1) staged.1 ⟨_, opened⟩
    fun _ checked unheard => ?_
  replace staged := Stage.observed.steady staged unheard.steady
  replace events := unheard.events.trans events
  replace opened := World.Opens.called (World.opens_of_eq rfl) events
  refine tells_native spec telling staged (ordered.trans ⟨_, opened⟩) events native
    fun result ended endedSteady calls => ?_
  have env := endedSteady.env.trans (unheard.steady.env.trans steady.env)
  refine tells_of_ok rfl ⟨result, calls, ?_, rfl, ?_, ?_⟩
  all_goals
    rw [← env]
    rfl

theorem tells_callFunction (spec : RunSpec .observed ordinary ordinary)
    (telling : TellSpec origin watched ordinary) (based : Based .observed ground start)
    (awaiting : Awaiting ground start world) (ordered : origin.InOrder world) {function : Function}
    (sound : function.Sound) (arguments : List Value) :
    Tells world (callFunction host watched function arguments)
      (callFunction host ordinary function arguments) world
      fun _ after => world.Called after := by
  rcases sound with generated | ⟨native, arity, builder, made⟩
  · exact (tells_callCompiled based awaiting generated arguments).mono fun _ _ => .inr
  · exact (tells_callNative spec telling based awaiting ordered made arguments).mono fun _ _ => .inl

theorem tells_callRef (spec : RunSpec .observed ordinary ordinary)
    (telling : TellSpec origin watched ordinary) (based : Based .observed ground start)
    {between : World} (alike : world.Alike between) (awaiting : Awaiting ground start between)
    (ordered : origin.InOrder world) (ref : FunctionRef) (arguments : List Value) :
    Tells world
      (do callFunction host watched (← readStore fun store => store.function ref) arguments)
      (do callFunction host ordinary (← readStore fun store => store.function ref) arguments)
      between
      fun _ after => world.Called after := by
  refine Tells.bind (tells_of_ok rfl ?_)
  have sound := awaiting.follows.ready.sound.function ref
  exact ((tells_callFunction spec telling based awaiting (ordered.trans alike.inOrder) sound
    arguments).since alike.inOrder).mono fun _ _ called => called.since alike

theorem tells_return (based : Based .observed ground start) (running : Running ground start world)
    (next : nextInstr? world.env = some .ret) :
    Tells world returnToCaller returnToCaller world
      fun _ after => ∃ frame value, world.Returned after frame value := by
  have staged := running.holds based
  obtain ⟨follows, place, pc, under⟩ := running
  rw [nextInstr?, pc] at next
  obtain ⟨frame, outer, rest, calls, _, _, goesOn⟩ := under.back next
  obtain ⟨value, below, data⟩ := under.returns next
  have called : world.env.base < world.env.calls.size := by
    rw [world.env.calls.size_eq, calls, follows.base, List.length_cons]
    exact Nat.lt_succ_of_le (Nat.le_trans based.base goesOn.stacked.calls_le)
  obtain ⟨left, popped, leftCalls⟩ := pop?_cons calls
  have top : world.env.data.top?.getD .nil = value := by simp [Stack.top?, data]
  obtain ⟨journal, observed, _, events⟩ :=
    observe_events (.returned frame.callee value) [value] staged
  refine Tells.bind (tells_of_ok (currentEnv_apply _) ?_)
  rw [if_neg (Nat.not_le_of_lt called), popped]
  dsimp only
  rw [top]
  refine Tells.bind (tells_of_ok observed (tells_of_ok rfl ⟨frame, value, events, ?_, ?_, rfl, rfl⟩))
  · rw [calls, ← leftCalls]
  · simp [data]

theorem tells_execute (spec : RunSpec .observed ordinary ordinary)
    (telling : TellSpec origin watched ordinary) (based : Based .observed ground start)
    (running : Running ground start world) (ordered : origin.InOrder world) {instr : Instr}
    (next : nextInstr? world.env = some instr) :
    Tells world (execute host watched instr) (execute host ordinary instr) world
      fun _ after => Told world instr after := by
  have follows := running.follows
  cases instr with
  | call symbol count =>
      obtain ⟨layout, below, outer, place, spot, height, before, behind⟩ :=
        running.spot next (by simp)
      refine (tame_lookup symbol).tellsBefore (.refl follows.ready) follows.ready
        ⟨[], World.opens_of_eq rfl⟩ fun value found unheard => ?_
      cases value with
      | function ref =>
          have steady := unheard.steady
          obtain ⟨enough, awaiting⟩ :=
            (spot.steady steady).arguments (follows.steady steady) before behind
          refine Tells.bind (tells_of_ok (popMany_apply enough) ?_)
          have alike : world.Alike (dropped found count) := unheard.alike.withData
          exact tells_callRef spec telling based alike awaiting ordered ref _
      | _ => exact Tells.bind (tells_of_ok rfl (tells_fail ⟨[], World.opens_of_eq unheard.events⟩))
  | dispatch count =>
      obtain ⟨layout, below, outer, place, spot, height, before, behind⟩ :=
        running.spot next (by simp)
      obtain ⟨enough, awaiting⟩ := spot.arguments follows before behind
      obtain ⟨value, popped⟩ := pop_behind enough
      refine Tells.bind (tells_of_ok (popMany_apply (Nat.le_of_succ_le enough)) ?_)
      refine Tells.bind (tells_of_ok popped ?_)
      cases value with
      | function ref =>
          have alike : world.Alike (dropped world (count + 1)) := (World.Alike.refl world).withData
          exact tells_callRef spec telling based alike awaiting ordered ref _
      | _ => exact Tells.bind (tells_of_ok rfl (tells_fail ⟨[], World.opens_of_eq rfl⟩))
  | ret => exact tells_return based running next
  | _ => exact (silent_execute host ordinary (by simp) (by simp) (by simp)).tells rfl

end Calls

end Machine

end StackLisp
