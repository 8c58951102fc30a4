import StackLisp.Proofs.Machine.Standing
import StackLisp.Proofs.Machine.Strict

/-!
Steps keep the stacks of a run in balance. Whatever instruction comes next in generated code, it finds
the values and scopes that it needs, and leaves the stacks at the height of the place that it leads
to.
-/

namespace StackLisp.Machine

structure Follows (start world : World) : Prop where
  later : start.Later world
  base : world.env.base = start.env.base
  nesting : world.env.nesting = start.env.nesting
  reader : world.env.reader = start.env.reader
  ready : world.Ready

structure Running (ground : Ground) (start world : World) : Prop where
  follows : Follows start world
  stands : ∃ place, world.env.pc = some place ∧ ground.Under world.store world.env.function place
    world.env.data.elements world.env.scopes.elements world.env.calls.elements

structure Leading (ground : Ground) (start world : World) : Prop where
  follows : Follows start world
  leads : ∃ place, world.env.pc = some place ∧
    ground.Under world.store world.env.function (place + 1) world.env.data.elements
      world.env.scopes.elements world.env.calls.elements

def given (world : World) (value : Value) : World :=
  { world with env := { world.env with data := world.env.data.push value } }

/-- A state in which nothing is left to do but to push a value and to advance. -/
def Awaiting (ground : Ground) (start world : World) : Prop :=
  ∀ value, Leading ground start (given world value)

structure Based (stage : Stage) (ground : Ground) (start : World) : Prop where
  holds : stage.holds start
  base : start.env.base ≤ ground.calls.length
  scopes : ground.scopes = start.env.scopes.elements
  calls : ground.calls = start.env.calls.elements
  since : ground.since = start.store.scopes.size

variable {stage : Stage} {ground : Ground} {start world : World}

theorem Follows.steady (follows : Follows start world) {after : World}
    (steady : world.Steady after) : Follows start after := by
  obtain ⟨later, base, nesting, reader, ready⟩ := follows
  refine ⟨later.trans steady.later, ?_, ?_, ?_, steady.ready ready⟩
  all_goals rwa [steady.env]

theorem Follows.withEnv (follows : Follows start world) {env : Env}
    (base : env.base = world.env.base) (nesting : env.nesting = world.env.nesting)
    (reader : env.reader = world.env.reader) (room : env.base ≤ env.calls.size)
    (hasScope : 0 < env.scopes.size) : Follows start { world with env } :=
  ⟨⟨follows.later.config, follows.later.ages⟩, base.trans follows.base, nesting.trans follows.nesting,
    reader.trans follows.reader, follows.ready.sound, room, hasScope⟩

theorem Running.steady (running : Running ground start world) {after : World}
    (steady : world.Steady after) : Running ground start after := by
  obtain ⟨place, pc, under⟩ := running.stands
  refine ⟨running.follows.steady steady, place, ?_⟩
  rw [steady.env]
  exact ⟨pc, under.ages steady.later.ages⟩

theorem Leading.steady (leading : Leading ground start world) {after : World}
    (steady : world.Steady after) : Leading ground start after := by
  obtain ⟨place, pc, under⟩ := leading.leads
  refine ⟨leading.follows.steady steady, place, ?_⟩
  rw [steady.env]
  exact ⟨pc, under.ages steady.later.ages⟩

theorem Awaiting.steady (awaiting : Awaiting ground start world) {after : World}
    (steady : world.Steady after) : Awaiting ground start after := by
  intro value
  apply (awaiting value).steady
  refine ⟨⟨steady.later.config, steady.later.ages⟩, ?_, steady.sound⟩
  rw [given, given, steady.env]

theorem Awaiting.follows (awaiting : Awaiting ground start world) : Follows start world := by
  obtain ⟨later, base, nesting, reader, ready⟩ := (awaiting .nil).follows
  exact ⟨⟨later.config, later.ages⟩, base, nesting, reader, ready.sound, ready.base,
    ready.hasScope⟩

/-! A run that is based on a stage stays there. -/

theorem Based.deepens (based : Based stage ground start) (follows : Follows start world)
    {function : Function} {place : Nat} {data : List Value}
    (under : ground.Under world.store function place data world.env.scopes.elements
      world.env.calls.elements) :
    start.Deepens world := by
  have stacked := under.stacked
  rw [based.scopes, based.calls, based.since] at stacked
  exact ⟨follows.later, follows.nesting, stacked⟩

theorem Running.deepens (running : Running ground start world) (based : Based stage ground start) :
    start.Deepens world := by
  obtain ⟨place, _, under⟩ := running.stands
  exact based.deepens running.follows under

theorem Running.holds (running : Running ground start world) (based : Based stage ground start) :
    stage.holds world :=
  stage.extended start world based.holds (running.deepens based) running.follows.ready

theorem Awaiting.holds (awaiting : Awaiting ground start world) (based : Based stage ground start) :
    stage.holds world := by
  obtain ⟨place, _, under⟩ := (awaiting .nil).leads
  have deepens : start.Deepens world := based.deepens awaiting.follows under
  exact stage.extended start world based.holds deepens awaiting.follows.ready

theorem Based.since_le (based : Based stage ground start) (follows : Follows start world) :
    ground.since ≤ world.store.scopes.size := by
  rw [based.since]
  exact follows.later.lasts.scopes_le

theorem Leading.advance (leading : Leading ground start world) :
    ∃ after, Machine.advance world = .ok () after ∧ Running ground start after := by
  obtain ⟨follows, place, pc, under⟩ := leading
  refine ⟨{ world with env := world.env.advance }, rfl, ?_, place + 1, ?_, under⟩
  · exact follows.withEnv rfl rfl rfl follows.ready.base follows.ready.hasScope
  · simp [Env.advance, pc]

theorem Awaiting.push (awaiting : Awaiting ground start world) (value : Value) :
    ∃ after, (do Machine.push value; Machine.advance : Machine Unit) world = .ok () after ∧
      Running ground start after :=
  (awaiting value).advance

/-! Single actions. -/

theorem pop?_cons {α : Type} {stack : Stack α} {element : α} {rest : List α}
    (top : stack.elements = element :: rest) :
    ∃ left : Stack α, stack.pop? = some (element, left) ∧ left.elements = rest := by
  obtain ⟨elements, size, sizeEq⟩ := stack
  dsimp only at top
  subst top
  exact ⟨_, rfl, rfl⟩

theorem onEnv_apply {α : Type} (change : Env → α × Env) (world : World) :
    onEnv change world = .ok (change world.env).1 { world with env := (change world.env).2 } := rfl

def dropped (world : World) (count : Nat) : World :=
  { world with env := { world.env with data := world.env.data.drop count } }

theorem pop_apply {value : Value} {rest : List Value}
    (top : world.env.data.elements = value :: rest) : pop world = .ok value (dropped world 1) := by
  obtain ⟨config, store, ⟨⟨elements, size, sizeEq⟩, scopes, calls, function, pc, base, nesting,
    reader⟩, journal⟩ := world
  dsimp only at top
  subst top
  rfl

theorem popMany_apply {count : Nat} (enough : count ≤ world.env.data.elements.length) :
    popMany count world =
      .ok (world.env.data.elements.take count).reverse (dropped world count) := by
  have taken : world.env.data.popMany? count =
      some ((world.env.data.elements.take count).reverse, world.env.data.drop count) := by
    rw [← world.env.data.size_eq] at enough
    exact if_pos enough
  simp only [popMany, bind_apply, onEnv_apply, taken]
  rfl

theorem dropped_dropped (world : World) (first second : Nat) :
    dropped (dropped world first) second = dropped world (first + second) := by
  simp only [dropped, Stack.drop, List.drop_drop, Nat.sub_sub]

theorem pop_behind {count : Nat} (enough : count + 1 ≤ world.env.data.elements.length) :
    ∃ value, pop (dropped world count) = .ok value (dropped world (count + 1)) := by
  cases left : (dropped world count).env.data.elements with
  | nil =>
      have short : world.env.data.elements.length ≤ count := List.drop_eq_nil_iff.mp left
      exact absurd (Nat.lt_of_succ_le enough) (Nat.not_lt_of_le short)
  | cons value rest => exact ⟨value, by rw [pop_apply left, dropped_dropped]⟩

theorem tame_lookup (symbol : Symbol) : IsTame fun _ => lookup symbol :=
  tame_bind tame_currentEnv fun _ =>
    tame_tryOnStore (fun store => store.lookup_harmless _ _ symbol)
      fun store => store.lookup_keeps _ _ symbol

theorem tame_bindAll (ref : ScopeRef) (values : List (Symbol × Value)) :
    IsTame fun _ => bindAll ref values := by
  induction values with
  | nil => exact tame_pure _
  | cons first later ih =>
      exact tame_bind (tame_tryOnStore (fun store => store.bind_harmless ref _ _)
        fun store => store.bind_keeps ref _ _) fun _ => ih

theorem tame_boundValues (name : String) (parameters : List Parameter) (rest : Option Symbol)
    (arguments : List Value) : IsTame fun _ => boundValues name parameters rest arguments := by
  refine tame_bind (tame_ask fun store => bindArguments_harmless store name parameters rest arguments)
    fun bound => ?_
  split
  · exact tame_bind (tame_newList _) fun _ => tame_pure _
  · exact tame_pure _

theorem tame_logInstr (instr : Instr) : IsTame fun _ => logInstr instr := by
  refine tame_bind tame_currentConfig fun config => ?_
  split
  · exact tame_bind tame_currentEnv fun _ => tame_bind (tame_readStore _) fun _ => tame_log _ _
  · exact tame_pure _

/-! New scopes. -/

structure NewScope (scope : Scope) (world : World) (ref : ScopeRef) (after : World) : Prop where
  steady : world.Steady after
  fresh : world.store.scopes.size ≤ ref
  known : ref < after.store.scopes.size
  isCall : (after.store.scope ref).isCall = scope.isCall
  name : (after.store.scope ref).name = scope.name

theorem newScope_apply (scope : Scope) (sound : world.store.Sound) :
    ∃ ref after, onStore (fun store => store.newScope scope) world = .ok ref after ∧
      NewScope scope world ref after := by
  refine ⟨_, _, rfl, ⟨?_, Nat.le_refl _, ?_, ?_, ?_⟩⟩
  · exact ⟨⟨rfl, (world.store.newScope_keeps scope).ages⟩, rfl,
      sound.grows (world.store.newScope_keeps scope).grows⟩
  · simp
  · simp [Store.scope]
  · simp [Store.scope]

theorem NewScope.opened {scope : Scope} {ref : ScopeRef} {after : World}
    (new : NewScope scope world ref after) {since : ScopeRef}
    (older : since ≤ world.store.scopes.size) : after.store.Opened scope.isCall since ref :=
  ⟨Nat.le_trans older new.fresh, new.known, new.isCall⟩

/-! Calls. -/

theorem Awaiting.enter (awaiting : Awaiting ground start world) {function : Function}
    (generated : function.Generated) {scope : ScopeRef}
    (opened : world.store.Opened true ground.since scope)
    (named : (world.store.scope scope).name = function.name) :
    ∃ after, Machine.enter function scope world = .ok () after ∧ Running ground start after := by
  obtain ⟨place, pc, _⟩ := (awaiting .nil).leads
  obtain ⟨parameters, rest, body, captures, closed, made⟩ := generated
  obtain ⟨heights, first, last, fits⟩ := body.code_laid Place.start_sound closed
  let layout : Layout := ⟨body.code .start, heights, fits⟩
  have code : function.code.toList = layout.code ++ [.ret] := by
    simp [layout, Function.code, made, Form.functionCode]
  refine ⟨_, rfl, ?_, 0, rfl,
    .called code last (layout.reaches_start first _ _ _) ⟨opened, named, ?_⟩ ?_⟩
  · have ready := awaiting.follows.ready
    exact awaiting.follows.withEnv rfl rfl rfl (Nat.le_succ_of_le ready.base) (Nat.succ_pos _)
  · exact world.env.scopes.size_eq
  · intro value
    obtain ⟨samePlace, samePc, waits⟩ := (awaiting value).leads
    rw [show world.env.pc = some samePlace from samePc]
    exact waits

section Calls

variable {host : Host} {strict ordinary : Perform}

theorem faultless_callCompiled (based : Based stage ground start)
    (awaiting : Awaiting ground start world) {function : Function} (generated : function.Generated)
    (arguments : List Value) :
    Faultless (callFunction host strict function arguments)
      (callFunction host ordinary function arguments) world
      fun _ after => Running ground start after := by
  have made := generated
  obtain ⟨parameters, rest, body, captures, _, made⟩ := made
  unfold callFunction
  rw [made]
  refine observe_before awaiting.follows.ready fun observed steady => ?_
  replace awaiting := awaiting.steady steady
  refine Faultless.bind (faultless_of_ok (currentConfig_apply _) ?_)
  refine Faultless.bind (faultless_of_ok (currentEnv_apply _) ?_)
  dsimp only
  split
  · exact Faultless.bind (faultless_fail rfl)
  · refine (tame_boundValues _ _ _ _).before awaiting.follows.ready fun values bound _ steady => ?_
    replace awaiting := awaiting.steady steady
    obtain ⟨scope, opened, found, new⟩ :=
      newScope_apply (.empty function.name true) awaiting.follows.ready.sound
    have isOpen := new.opened (based.since_le awaiting.follows)
    replace awaiting := awaiting.steady new.steady
    refine Faultless.bind (faultless_of_ok found ?_)
    refine (tame_bindAll scope values).before awaiting.follows.ready fun _ filled _ steady => ?_
    have named := (steady.later.ages.name_eq isOpen.known).trans new.name
    obtain ⟨after, entered, running⟩ :=
      (awaiting.steady steady).enter generated (isOpen.lasts steady.later.lasts) named
    exact faultless_of_ok entered running

theorem faultless_callNative (spec : RunSpec stage strict ordinary)
    (based : Based stage ground start) (awaiting : Awaiting ground start world)
    {function : Function} {native : Standard} {arity : Arity} {builder : Bool}
    (made : function.body = .native (.standard native) arity builder) (arguments : List Value) :
    Faultless (callFunction host strict function arguments)
      (callFunction host ordinary function arguments) world
      fun _ after => Running ground start after := by
  unfold callFunction
  rw [made]
  refine observe_before awaiting.follows.ready fun observed steady => ?_
  replace awaiting := awaiting.steady steady
  refine (tame_ofExcept (arity_harmless _ _ _)).before awaiting.follows.ready
    fun _ checked _ steady => ?_
  replace awaiting := awaiting.steady steady
  refine Faultless.bind
    (((native.tame_call arguments).faultless spec (awaiting.holds based)).mono ?_)
  rintro result called ⟨_, steady⟩
  replace awaiting := awaiting.steady steady
  refine observe_before awaiting.follows.ready fun returned steady => ?_
  replace awaiting := awaiting.steady steady
  obtain ⟨after, pushed, running⟩ := awaiting.push result
  exact faultless_of_ok pushed running

theorem faultless_callFunction (spec : RunSpec stage strict ordinary)
    (based : Based stage ground start) (awaiting : Awaiting ground start world)
    {function : Function} (sound : function.Sound) (arguments : List Value) :
    Faultless (callFunction host strict function arguments)
      (callFunction host ordinary function arguments) world
      fun _ after => Running ground start after := by
  rcases sound with generated | ⟨native, arity, builder, made⟩
  · exact faultless_callCompiled based awaiting generated arguments
  · exact faultless_callNative spec based awaiting made arguments

end Calls

/-! Instructions. -/

structure Spot (ground : Ground) (world : World) (layout : Layout) (below : List Value)
    (outer : List ScopeRef) (place : Nat) : Prop where
  pc : world.env.pc = some place
  room : place < layout.code.length
  reaches : layout.Reaches (world.store.Opened false ground.since) below outer place
    world.env.data.elements
    world.env.scopes.elements
  goes : ∀ {later : Store} {next data scopes}, world.store.Ages later →
    layout.Reaches (later.Opened false ground.since) below outer next data scopes →
    ground.Under later world.env.function next data scopes world.env.calls.elements
  hasScope : outer ≠ []

theorem Running.spot (running : Running ground start world) {instr : Instr}
    (next : nextInstr? world.env = some instr) (notRet : instr ≠ .ret) :
    ∃ layout below outer place, Spot ground world layout below outer place ∧
      instr.Fits none layout.heights layout.code.length place := by
  obtain ⟨place, pc, under⟩ := running.stands
  obtain ⟨layout, below, outer, reaches, hasScope, goes, inLayout⟩ := under.top
  rw [nextInstr?, pc] at next
  obtain ⟨room, found⟩ := inLayout instr next notRet
  exact ⟨layout, below, outer, place, ⟨pc, room, reaches, goes, hasScope⟩,
    Code.fits_at layout.fits found⟩

section Spot

variable {layout : Layout} {below : List Value} {outer : List ScopeRef} {place : Nat}

theorem Spot.awaiting (spot : Spot ground world layout below outer place)
    (follows : Follows start world)
    (height : layout.heights (place + 1) = (layout.heights place).more 1) :
    Awaiting ground start world := by
  intro value
  refine ⟨follows.withEnv rfl rfl rfl follows.ready.base follows.ready.hasScope, place, spot.pc, ?_⟩
  exact spot.goes (.refl _) (spot.reaches.push spot.room height value)

theorem Spot.pop (spot : Spot ground world layout below outer place) {next : Nat}
    (room : next ≤ layout.code.length)
    (height : layout.heights place = (layout.heights next).more 1) :
    ∃ value, Machine.pop world = .ok value (dropped world 1) ∧
      layout.Reaches (world.store.Opened false ground.since) below outer next
        (dropped world 1).env.data.elements
        (dropped world 1).env.scopes.elements := by
  obtain ⟨value, rest, top, reaches⟩ := spot.reaches.pop room height
  refine ⟨value, pop_apply top, ?_⟩
  have left : (dropped world 1).env.data.elements = rest := by
    simp [dropped, Stack.drop, top]
  rw [left]
  exact reaches

theorem Follows.dropped (follows : Follows start world) (count : Nat) :
    Follows start (dropped world count) :=
  follows.withEnv rfl rfl rfl follows.ready.base follows.ready.hasScope

theorem Spot.popped (spot : Spot ground world layout below outer place)
    (follows : Follows start world)
    (height : layout.heights place = (layout.heights (place + 1)).more 1) :
    ∃ value, Machine.pop world = .ok value (Machine.dropped world 1) ∧
      Leading ground start (Machine.dropped world 1) := by
  obtain ⟨value, popped, reaches⟩ := spot.pop (Nat.succ_le_of_lt spot.room) height
  exact ⟨value, popped, follows.dropped 1, place, spot.pc, spot.goes (.refl _) reaches⟩

theorem Spot.steady (spot : Spot ground world layout below outer place) {after : World}
    (steady : world.Steady after) : Spot ground after layout below outer place := by
  obtain ⟨pc, room, reaches, goes, hasScope⟩ := spot
  refine ⟨?_, room, ?_, fun ages reaches => ?_, hasScope⟩
  · rwa [steady.env]
  · rw [steady.env]
    exact reaches.mono fun _ opened => opened.lasts steady.later.lasts
  · rw [steady.env]
    exact goes (steady.later.ages.trans ages) reaches

theorem Spot.arguments (spot : Spot ground world layout below outer place)
    (follows : Follows start world) {height : Height} {count : Nat}
    (before : layout.heights place = height.more count)
    (behind : layout.heights (place + 1) = height.more 1) :
    count ≤ world.env.data.elements.length ∧ Awaiting ground start (Machine.dropped world count) := by
  obtain ⟨enough, reaches⟩ := spot.reaches.call (Nat.succ_le_of_lt spot.room) before behind
  refine ⟨enough, fun value => ⟨(follows.dropped count).withEnv rfl rfl rfl ?_ ?_, place, spot.pc,
    spot.goes (.refl _) (reaches value)⟩⟩
  · exact follows.ready.base
  · exact follows.ready.hasScope

theorem Spot.top (spot : Spot ground world layout below outer place)
    (positive : 0 < (layout.heights place).data) : ∃ value, world.env.data.top? = some value := by
  obtain ⟨own, data, size⟩ := spot.reaches.values
  cases own with
  | nil =>
      rw [← size] at positive
      exact absurd positive (Nat.lt_irrefl 0)
  | cons value own => exact ⟨value, by rw [Stack.top?, data, List.cons_append, List.head?_cons]⟩

end Spot

section Execute

variable {host : Host} {strict ordinary : Perform}

theorem faultless_push (awaiting : Awaiting ground start world) (value : Value) :
    Faultless (do push value; advance) (do push value; advance) world
      fun _ after => Running ground start after := by
  obtain ⟨after, pushed, running⟩ := awaiting.push value
  exact faultless_of_ok pushed running

theorem faultless_advance (leading : Leading ground start world) :
    Faultless advance advance world fun _ after => Running ground start after := by
  obtain ⟨after, advanced, running⟩ := leading.advance
  exact faultless_of_ok advanced running

theorem faultless_jump (follows : Follows start world) {target : Nat}
    (under : ground.Under world.store world.env.function target world.env.data.elements
      world.env.scopes.elements world.env.calls.elements) :
    Faultless (jump target) (jump target) world fun _ after => Running ground start after := by
  refine faultless_of_ok rfl ⟨?_, target, rfl, under⟩
  exact follows.withEnv rfl rfl rfl follows.ready.base follows.ready.hasScope

theorem faultless_callRef (spec : RunSpec stage strict ordinary)
    (based : Based stage ground start) (awaiting : Awaiting ground start world)
    (ref : FunctionRef) (arguments : List Value) :
    Faultless
      (do callFunction host strict (← readStore fun store => store.function ref) arguments)
      (do callFunction host ordinary (← readStore fun store => store.function ref) arguments)
      world fun _ after => Running ground start after := by
  refine Faultless.bind (faultless_of_ok rfl ?_)
  exact faultless_callFunction spec based awaiting (awaiting.follows.ready.sound.function ref)
    arguments

theorem faultless_return (based : Based stage ground start) (running : Running ground start world)
    (next : nextInstr? world.env = some .ret) :
    Faultless returnToCaller returnToCaller world fun _ after => Running ground start after := by
  obtain ⟨follows, place, pc, under⟩ := running
  rw [nextInstr?, pc] at next
  obtain ⟨frame, outer, rest, calls, depth, kept, goesOn⟩ := under.back next
  have called : world.env.base < world.env.calls.size := by
    rw [world.env.calls.size_eq, calls, follows.base, List.length_cons]
    exact Nat.lt_succ_of_le (Nat.le_trans based.base goesOn.stacked.calls_le)
  obtain ⟨left, popped, leftCalls⟩ := pop?_cons calls
  have leftScopes : (world.env.scopes.truncate frame.scopeDepth).elements = outer := by
    rw [← kept, ← world.env.scopes.size_eq]
    rfl
  refine Faultless.bind (faultless_of_ok (currentEnv_apply _) ?_)
  rw [if_neg (Nat.not_le_of_lt called), popped]
  refine observe_before follows.ready fun observed steady => ?_
  refine faultless_of_ok rfl ⟨(follows.steady steady).withEnv rfl rfl rfl ?_ ?_, frame.resume, rfl, ?_⟩
  · rw [left.size_eq, leftCalls, steady.env, follows.base]
    exact Nat.le_trans based.base goesOn.stacked.calls_le
  · rw [steady.env, Stack.size_eq, leftScopes]
    exact List.length_pos_iff.mpr goesOn.hasScope
  · rw [steady.env, leftScopes, leftCalls]
    exact goesOn.ages steady.later.ages

theorem faultless_tryOnStore {change : Store → Except Error Unit × Store}
    (leading : Leading ground start world) (spared : ∀ store, Harmless (change store).1)
    (keeps : ∀ store : Store, store.Keeps (change store).2) :
    Faultless (do tryOnStore change; advance) (do tryOnStore change; advance) world
      fun _ after => Running ground start after :=
  (tame_tryOnStore spared keeps).before leading.follows.ready fun _ _ _ steady =>
    faultless_advance (leading.steady steady)

section Scopes

variable {layout : Layout} {below : List Value} {outer : List ScopeRef} {place : Nat}

theorem faultless_openScope (based : Based stage ground start) (follows : Follows start world)
    (spot : Spot ground world layout below outer place)
    (fits : Instr.Fits none layout.heights layout.code.length place .openScope) :
    Faultless (execute host strict .openScope) (execute host ordinary .openScope) world
      fun _ after => Running ground start after := by
  obtain ⟨ref, opened, found, new⟩ := newScope_apply (.empty "let" false) follows.ready.sound
  have isOpen := new.opened (based.since_le follows)
  replace spot := spot.steady new.steady
  replace follows := follows.steady new.steady
  refine Faultless.bind (faultless_of_ok found ?_)
  refine Faultless.bind (faultless_of_ok rfl (faultless_advance ⟨?_, place, spot.pc, ?_⟩))
  · exact follows.withEnv rfl rfl rfl follows.ready.base (Nat.succ_pos _)
  · exact spot.goes (.refl _) (spot.reaches.openScope (Nat.succ_le_of_lt spot.room) fits isOpen)

theorem faultless_closeScope (follows : Follows start world)
    (spot : Spot ground world layout below outer place)
    (fits : Instr.Fits none layout.heights layout.code.length place .closeScope) :
    Faultless (execute host strict .closeScope) (execute host ordinary .closeScope) world
      fun _ after => Running ground start after := by
  obtain ⟨ref, rest, scopes, outside, reaches⟩ :=
    spot.reaches.closeScope (Nat.succ_le_of_lt spot.room) fits
  have positive := List.length_pos_iff.mpr spot.hasScope
  have size : world.env.scopes.size = rest.length + 1 := by
    rw [world.env.scopes.size_eq, scopes, List.length_cons]
  have notLast : ¬world.env.scopes.size ≤ 1 := by omega
  have closed : (world.env.scopes.drop 1).elements = rest := by simp [Stack.drop, scopes]
  refine Faultless.bind (faultless_of_ok (currentEnv_apply _) ?_)
  dsimp only
  rw [if_neg notLast]
  refine Faultless.bind (faultless_of_ok rfl (faultless_advance ⟨?_, place, spot.pc, ?_⟩))
  · refine follows.withEnv rfl rfl rfl follows.ready.base ?_
    change 0 < world.env.scopes.size - 1
    omega
  · rw [← closed] at reaches
    exact spot.goes (.refl _) reaches

end Scopes

theorem faultless_execute (spec : RunSpec stage strict ordinary)
    (based : Based stage ground start) (running : Running ground start world)
    {instr : Instr} (next : nextInstr? world.env = some instr) :
    Faultless (execute host strict instr) (execute host ordinary instr) world
      fun _ after => Running ground start after := by
  have follows := running.follows
  by_cases isRet : instr = .ret
  · subst isRet
    exact faultless_return based running next
  · obtain ⟨layout, below, outer, place, spot, fits⟩ := running.spot next isRet
    cases instr with
    | push value => exact faultless_push (spot.awaiting follows fits) value
    | pop =>
        obtain ⟨value, _, leading⟩ := spot.popped follows fits
        exact Faultless.bind (faultless_of_ok rfl (faultless_advance leading))
    | dup =>
        obtain ⟨positive, height⟩ := fits
        obtain ⟨value, top⟩ := spot.top positive
        refine Faultless.bind (faultless_of_ok (currentEnv_apply _) ?_)
        simp only [top]
        exact faultless_push (spot.awaiting follows height) value
    | get symbol =>
        refine (tame_lookup symbol).before follows.ready fun value after _ steady => ?_
        exact faultless_push ((spot.awaiting follows fits).steady steady) value
    | put symbol =>
        obtain ⟨value, popped, leading⟩ := spot.popped follows fits
        refine Faultless.bind (faultless_of_ok popped ?_)
        refine Faultless.bind (faultless_of_ok (currentEnv_apply _) ?_)
        exact faultless_tryOnStore leading (fun store => store.bind_harmless _ _ _)
          fun store => store.bind_keeps _ _ _
    | set symbol =>
        obtain ⟨value, popped, leading⟩ := spot.popped follows fits
        refine Faultless.bind (faultless_of_ok popped ?_)
        refine Faultless.bind (faultless_of_ok (currentEnv_apply _) ?_)
        exact faultless_tryOnStore leading (fun store => store.assign_harmless _ _ _ _)
          fun store => store.assign_keeps _ _ _ _
    | call symbol count =>
        obtain ⟨height, before, behind⟩ := fits
        refine (tame_lookup symbol).before follows.ready fun value found _ steady => ?_
        replace follows := follows.steady steady
        cases value with
        | function ref =>
            obtain ⟨enough, awaiting⟩ := (spot.steady steady).arguments follows before behind
            refine Faultless.bind (faultless_of_ok (popMany_apply enough) ?_)
            exact faultless_callRef spec based awaiting ref _
        | _ => exact Faultless.bind (faultless_of_ok rfl (faultless_fail rfl))
    | dispatch count =>
        obtain ⟨height, before, behind⟩ := fits
        obtain ⟨enough, awaiting⟩ := spot.arguments follows before behind
        obtain ⟨value, popped⟩ := pop_behind enough
        refine Faultless.bind (faultless_of_ok (popMany_apply (Nat.le_of_succ_le enough)) ?_)
        refine Faultless.bind (faultless_of_ok popped ?_)
        cases value with
        | function ref => exact faultless_callRef spec based awaiting ref _
        | _ => exact Faultless.bind (faultless_of_ok rfl (faultless_fail rfl))
    | jump target =>
        obtain ⟨room, height⟩ := fits
        exact faultless_jump follows (spot.goes (.refl _) (spot.reaches.move room height))
    | branch direction target =>
        obtain ⟨room, before, same⟩ := fits
        obtain ⟨value, popped, reaches⟩ := spot.pop room (by rw [before, same])
        obtain ⟨_, _, leading⟩ := spot.popped follows before
        refine Faultless.bind (faultless_of_ok popped ?_)
        split
        · exact faultless_jump (follows.dropped 1) (spot.goes (.refl _) reaches)
        · exact faultless_advance leading
    | ret => exact absurd rfl isRet
    | closure ref =>
        refine Faultless.bind (faultless_of_ok (currentEnv_apply _) ?_)
        refine Faultless.bind (faultless_of_ok rfl ?_)
        apply faultless_push
        refine Awaiting.steady (spot.awaiting follows fits)
          ⟨⟨rfl, world.store.newFunction_ages _⟩, rfl, ?_⟩
        exact follows.ready.sound.newFunction ((follows.ready.sound.function ref).closeOver _ _)
    | openScope => exact faultless_openScope based follows spot fits
    | closeScope => exact faultless_closeScope follows spot fits
    | leave exit => cases fits

end Execute

end StackLisp.Machine
