import StackLisp.Proofs.Form.Reading
import StackLisp.Proofs.Machine.Balance
import StackLisp.Proofs.Machine.Keeping

/-!
Runs end without a fault. A step keeps a run in balance, so a run ends where its code does, with what
its code leaves; and so it is for all runs that are asked for, by the fuel that they are given.
-/

namespace StackLisp

namespace Code

theorem laid_pushes {loop : Option Height} (values : List Value) (height : Height) :
    Laid loop height (height.more values.length) (values.map .push) := by
  induction values generalizing height with
  | nil => exact laid_nil height
  | cons value later ih =>
      have rest := ih (height.more 1)
      rw [Height.more_more, Nat.add_comm] at rest
      refine laid_append (laid_push value height) rest ?_
      intro base
      simp [Instr.relocate]

end Code

namespace Machine

open Code

theorem applyCode_laid (function : Value) (arguments : List Value) :
    (applyCode function arguments).Laid none ⟨0, 0⟩ ⟨1, 0⟩ := by
  have pushes : Laid none ⟨0, 0⟩ ((⟨0, 0⟩ : Height).more (arguments.length + 1))
      ((function :: arguments).map .push) := laid_pushes (function :: arguments) ⟨0, 0⟩
  have call : Laid none ((⟨0, 0⟩ : Height).more (arguments.length + 1)) ⟨1, 0⟩
      [.dispatch arguments.length] := by
    apply laid_single
    exact ⟨⟨0, 0⟩, rfl, rfl⟩
  exact laid_append pushes call (jumpless_single fun _ => rfl)

section Runs

variable {host : Host} {stage : Stage} {strict ordinary : Perform} {ground : Ground}
  {start world : World}

theorem Running.inLoop (running : Running ground start world) (exit : Exit) :
    nextInstr? world.env ≠ some (.leave exit) := by
  intro next
  obtain ⟨layout, below, outer, place, spot, fits⟩ := running.spot next (by simp)
  cases fits

structure Finished (ground : Ground) (start world : World) : Prop where
  follows : Follows start world
  reaches : ground.layout.Reaches (world.store.Opened false ground.since) ground.data ground.scopes
    ground.layout.code.length world.env.data.elements world.env.scopes.elements
  calls : world.env.calls.elements = ground.calls

theorem faultless_step (spec : RunSpec stage strict ordinary) (based : Based stage ground start)
    (running : Running ground start world) :
    Faultless (step host strict) (step host ordinary) world fun more after =>
      if more then Running ground start after else Finished ground start after := by
  refine Faultless.bind (faultless_of_ok (currentEnv_apply _) ?_)
  cases next : nextInstr? world.env with
  | none =>
      obtain ⟨follows, place, pc, under⟩ := running
      rw [nextInstr?, pc] at next
      obtain ⟨reaches, calls⟩ := under.finished next
      exact faultless_of_ok rfl ⟨follows, reaches, calls⟩
  | some instr =>
      refine (tame_logInstr instr).before running.follows.ready fun _ logged _ steady => ?_
      have sameNext : nextInstr? logged.env = some instr := by rw [steady.env, next]
      refine Faultless.bind ((faultless_execute spec based (running.steady steady) sameNext).mono ?_)
      intro _ after executed
      exact faultless_of_ok rfl executed

structure Goes (stage : Stage) (host : Host) (perform : Perform) (go : Nat → Machine Unit) : Prop where
  zero : go 0 = exhausted
  next : ∀ ground start world fuel, Based stage ground start → Running ground start world →
    (∀ after, step host perform world ≠ .error (.error .stackUnderflow) after) →
    go (fuel + 1) world =
      match step host perform world with
      | .ok true after => go fuel after
      | .ok false after => .ok () after
      | .error stop after => .error stop after

theorem goes_drive (stage : Stage) (host : Host) (perform : Perform) :
    Goes stage host perform (drive host perform) := by
  refine ⟨rfl, fun ground start world fuel _ _ enough => ?_⟩
  simp only [drive]
  cases stepped : step host perform world with
  | ok more after => cases more <;> rfl
  | error stop after =>
      cases stop with
      | exhausted => rfl
      | error cause =>
          cases cause with
          | stackUnderflow => exact absurd stepped (enough after)
          | _ => rfl

theorem strictStep_apply (running : Running ground start world) :
    strictStep host strict world = step host strict world := by
  have notLeaving := running.inLoop
  simp only [strictStep, bind_apply, currentEnv_apply]

theorem goes_strictDrive (stage : Stage) (host : Host) (perform : Perform) :
    Goes stage host perform (strictDrive host perform) := by
  refine ⟨rfl, fun ground start world fuel _ running _ => ?_⟩
  rw [strictDrive, bind_apply, strictStep_apply running]
  cases step host perform world with
  | ok more after => cases more <;> rfl
  | error stop after => rfl

variable {go : Nat → Machine Unit}

theorem faultless_drive (spec : RunSpec stage strict ordinary) (goes : Goes stage host strict go)
    (based : Based stage ground start) (fuel : Nat) (running : Running ground start world) :
    Faultless (go fuel) (drive host ordinary fuel) world fun _ after =>
      Finished ground start after := by
  induction fuel generalizing world with
  | zero =>
      rw [goes.zero]
      exact faultless_exhausted
  | succ fuel ih =>
      have stepped : Faultless (step host strict) (step host ordinary) world fun more after =>
          if more then Running ground start after else Finished ground start after :=
        faultless_step spec based running
      obtain ⟨same, outcome⟩ := stepped
      have enough (after : World) :
          step host strict world ≠ .error (.error .stackUnderflow) after := by
        intro short
        rw [short] at outcome
        cases outcome
      rw [Faultless, goes.next ground start world fuel based running enough]
      simp only [drive, ← same]
      cases ended : step host strict world with
      | ok more after =>
          rw [ended] at outcome
          cases more with
          | true => exact ih outcome
          | false => exact ⟨rfl, outcome⟩
      | error stop after =>
          rw [ended] at outcome
          cases stop with
          | exhausted => exact ⟨rfl, trivial⟩
          | error cause =>
              cases cause with
              | stackUnderflow => cases outcome
              | _ => exact ⟨rfl, outcome⟩

structure Left (count : Nat) (start world : World) : Prop where
  follows : Follows start world
  values : ∃ own : List Value, world.env.data.elements = own ++ start.env.data.elements ∧
    own.length = count
  scopes : world.env.scopes = start.env.scopes
  calls : world.env.calls = start.env.calls

theorem stack_eq {α : Type} {stack other : Stack α} (same : stack.elements = other.elements) :
    stack = other := by
  obtain ⟨elements, size, sizeEq⟩ := stack
  obtain ⟨otherElements, otherSize, otherSizeEq⟩ := other
  dsimp only at same
  subst same sizeEq otherSizeEq
  rfl

theorem starts_run (holds : stage.holds world) {code : Code} {count : Nat}
    (laid : code.Laid none ⟨0, 0⟩ ⟨count, 0⟩) (pc : world.env.pc = some 0)
    (sameCode : world.env.function.code.toList = code)
    (captures : world.env.function.captures = []) :
    ∃ ground, Based stage ground world ∧ Running ground world world ∧
      ground.data = world.env.data.elements ∧
        ground.layout.heights ground.layout.code.length = ⟨count, 0⟩ := by
  obtain ⟨heights, first, last, fits⟩ := laid
  have ready := stage.ready world holds
  have scopes : world.env.scopes.elements ≠ [] := by
    rw [← List.length_pos_iff, ← world.env.scopes.size_eq]
    exact ready.hasScope
  let layout : Layout := ⟨code, heights, fits⟩
  let ground : Ground := ⟨world.env.function, layout, sameCode, captures, world.store.scopes.size,
    world.env.data.elements, world.env.scopes.elements, world.env.calls.elements, scopes⟩
  have based : Based stage ground world := by
    refine ⟨holds, ?_, rfl, rfl, rfl⟩
    rw [← world.env.calls.size_eq]
    exact ready.base
  have running : Running ground world world :=
    ⟨⟨.refl world, rfl, rfl, rfl, ready⟩, 0, pc, .own (layout.reaches_start first _ _ _)⟩
  exact ⟨ground, based, running, rfl, last⟩

theorem faultless_run (spec : RunSpec stage strict ordinary) (goes : Goes stage host strict go)
    (holds : stage.holds world) {code : Code} {count : Nat}
    (laid : code.Laid none ⟨0, 0⟩ ⟨count, 0⟩) (pc : world.env.pc = some 0)
    (sameCode : world.env.function.code.toList = code)
    (captures : world.env.function.captures = []) (fuel : Nat) :
    Faultless (go fuel) (drive host ordinary fuel) world fun _ after => Left count world after := by
  obtain ⟨ground, based, running, data, height⟩ := starts_run holds laid pc sameCode captures
  refine (faultless_drive spec goes based fuel running).mono fun _ after finished => ?_
  obtain ⟨follows, ⟨_, ⟨own, values, size⟩, opened, left, none, _⟩, calls⟩ := finished
  rw [height] at size none
  have noScope : opened = [] := List.eq_nil_of_length_eq_zero none
  subst noScope
  rw [data] at values
  exact ⟨follows, ⟨own, values, size⟩, stack_eq (left.trans based.scopes),
    stack_eq (calls.trans based.calls)⟩

/-! Requests. -/

def resumed (world after : World) : World :=
  { after with env := { after.env with
      function := world.env.function
      pc := world.env.pc
      base := world.env.base
      nesting := world.env.nesting } }

theorem inside_apply {α : Type} (function : Function) (body : Machine α) (world : World) :
    inside function body world =
      match body (inner function world) with
      | .ok result after => .ok result (resumed world after)
      | .error stop after => .error stop (resumed world after) := by
  rw [inside]
  rfl

theorem inside_last {α : Type} (function : Function) (body : Machine α) (world : World) :
    lastState (inside function body) world =
      resumed world (lastState body (inner function world)) := by
  rw [lastState, inside_apply, lastState]
  cases body (inner function world) <;> rfl

theorem faultless_inside {function : Function} {body strictBody : Machine Unit}
    {holds : World → Prop}
    (faultless : Faultless strictBody body (inner function world) fun _ after =>
      holds (resumed world after)) :
    Faultless (inside function strictBody) (inside function body) world fun _ after => holds after := by
  obtain ⟨same, outcome⟩ := faultless
  rw [Faultless, inside_apply, inside_apply, ← same]
  refine ⟨rfl, ?_⟩
  cases ended : strictBody (inner function world) with
  | ok value after =>
      rw [ended] at outcome
      exact outcome
  | error stop after =>
      rw [ended] at outcome
      cases stop with
      | error cause => exact outcome
      | exhausted => trivial

theorem faultless_applyCompiled (spec : RunSpec stage strict ordinary)
    (goes : Goes stage host strict go) (fuel : Nat) (function : Value) (arguments : List Value)
    (holds : ∀ stub, stage.holds (inner stub world)) :
    Faultless
      (do
        inside (.program "__apply" (applyCode function arguments).toArray) (go fuel)
        pop)
      (do
        inside (.program "__apply" (applyCode function arguments).toArray)
          (drive host ordinary fuel)
        pop)
      world fun _ after => world.Steady after := by
  let stub : Function := .program "__apply" (applyCode function arguments).toArray
  have driven : Faultless (go fuel) (drive host ordinary fuel) (inner stub world)
      fun _ after => Left 1 (inner stub world) after :=
    faultless_run spec goes (holds stub) (applyCode_laid function arguments) rfl rfl rfl fuel
  refine Faultless.bind (faultless_inside (driven.mono ?_))
  intro _ after left
  obtain ⟨own, values, size⟩ := left.values
  obtain ⟨value, rfl⟩ := List.length_eq_one_iff.mp size
  have data : after.env.data.drop 1 = world.env.data := by
    apply stack_eq
    change after.env.data.elements.drop 1 = _
    rw [values]
    rfl
  refine faultless_of_ok (pop_apply values)
    ⟨⟨left.follows.later.config, left.follows.later.ages⟩, ?_, left.follows.ready.sound⟩
  have scopes : after.env.scopes = world.env.scopes := left.scopes
  have calls : after.env.calls = world.env.calls := left.calls
  have reader : after.env.reader = world.env.reader := left.follows.reader
  simp only [dropped, resumed, data, scopes, calls, reader]

theorem faultless_applyEither {function : Value} {arguments : List Value}
    {strictRun ordinaryRun : Machine Unit} (ready : world.Ready)
    (compiled : world.env.nesting < world.config.maxNesting →
      Faultless
        (do
          inside (.program "__apply" (applyCode function arguments).toArray) strictRun
          pop)
        (do
          inside (.program "__apply" (applyCode function arguments).toArray) ordinaryRun
          pop)
        world fun _ after => world.Steady after)
    (native : ∀ ref native arity builder, function = .function ref →
      (world.store.function ref).body = .native (.standard native) arity builder →
      ∀ between, world.Steady between →
        Faultless (native.call strict arguments) (native.call ordinary arguments) between
          fun _ after => between.Steady after) :
    Faultless (applyFunction host strict strictRun function arguments)
      (applyFunction host ordinary ordinaryRun function arguments) world
      fun _ after => world.Steady after := by
  cases function with
  | function ref =>
      refine Faultless.bind (faultless_of_ok rfl ?_)
      rcases ready.sound.function ref with ⟨parameters, rest, body, captures, _, made⟩ |
        ⟨standard, arity, builder, made⟩
      · rw [made]
        refine Faultless.bind (faultless_checkNesting.mono ?_)
        rintro _ _ ⟨rfl, room⟩
        exact compiled room
      · rw [made]
        refine (tame_ofExcept (arity_harmless _ _ _)).before ready fun _ checked _ first => ?_
        refine observe_before (first.ready ready) fun observed second => ?_
        replace first := first.trans second
        refine Faultless.bind ((native ref standard arity builder rfl made observed first).mono ?_)
        intro result called third
        replace first := first.trans third
        refine observe_before (first.ready ready) fun returned fourth => ?_
        exact faultless_of_ok rfl (first.trans fourth)
  | _ => exact Faultless.bind (faultless_of_ok rfl (faultless_fail rfl))

theorem faultless_applyFunction (spec : RunSpec stage strict ordinary)
    (goes : Goes stage host strict go) (fuel : Nat) (function : Value) (arguments : List Value)
    (holds : stage.holds world) :
    Faultless (applyFunction host strict (go fuel) function arguments)
      (applyFunction host ordinary (drive host ordinary fuel) function arguments) world
      fun _ after => world.Steady after := by
  refine faultless_applyEither (stage.ready world holds) (fun room => ?_) ?_
  · exact faultless_applyCompiled spec goes fuel function arguments
      fun stub => stage.inner world stub holds room
  · intro ref native arity builder _ _ between steady
    exact ((native.tame_call arguments).faultless spec (stage.steady holds steady)).mono
      fun _ _ outcome => outcome.2

theorem loadProgram_apply (perform : Perform) (fuel : Nat) (values : List Value) (world : World) :
    ∃ journal, loadProgram perform fuel values world =
      match Form.readProgram perform fuel values world with
      | .ok forms read => .ok () { read with
          journal
          env := { read.env with
            function := .program "__main" (Form.programCode forms).toArray
            pc := some 0 } }
      | .error stop after => .error stop after := by
  rw [loadProgram, bind_apply]
  cases Form.readProgram perform fuel values world with
  | ok forms read =>
      dsimp only
      rw [bind_apply]
      obtain ⟨journal, logged⟩ := log_apply .debug _ read
      rw [logged]
      exact ⟨journal, rfl⟩
  | error stop after => exact ⟨world.journal, rfl⟩

structure Loaded (world loaded : World) (forms : List Form) : Prop where
  enclosed : Form.allEnclosed false forms = true
  code : loaded.env.function.code.toList = Form.programCode forms
  captures : loaded.env.function.captures = []
  pc : loaded.env.pc = some 0
  same : world.env.SameStacks loaded.env
  later : world.Later loaded
  sound : loaded.store.Sound

theorem Loaded.holds {loaded : World} {forms : List Form} (loads : Loaded world loaded forms)
    (holds : stage.holds world) : stage.holds loaded :=
  stage.extended world loaded holds (loads.same.deepens loads.later)
    (loads.same.ready (stage.ready world holds) loads.sound)

theorem faultless_loadProgram (spec : RunSpec stage strict ordinary) (fuel : Nat)
    (values : List Value) (holds : stage.holds world) :
    Faultless (loadProgram strict fuel values) (loadProgram ordinary fuel values) world
      fun _ after => ∃ forms, Loaded world after forms := by
  refine Faultless.bind (((Form.tame_readProgram fuel values).faultless spec holds).mono ?_)
  rintro forms read ⟨closed, steady⟩
  have ready := steady.ready (stage.ready world holds)
  refine (tame_log _ _).before ready fun _ logged _ second => ?_
  obtain ⟨later, env, sound⟩ := steady.trans second
  refine faultless_of_ok rfl
    ⟨forms, closed, rfl, rfl, rfl, ?_, ⟨later.config, later.ages⟩, sound⟩
  constructor
  all_goals rw [env]

theorem faultless_result :
    Faultless
      (onEnv fun env =>
        match env.data.pop? with
        | some (value, data) => (value, { env with data })
        | none => (.nil, env))
      (onEnv fun env =>
        match env.data.pop? with
        | some (value, data) => (value, { env with data })
        | none => (.nil, env))
      world fun _ after => after = dropped world 1 := by
  refine faultless_of_ok rfl ?_
  cases values : world.env.data.elements with
  | nil =>
      have empty : world.env.data.drop 1 = world.env.data := by
        apply stack_eq
        change world.env.data.elements.drop 1 = _
        rw [values]
        rfl
      obtain ⟨config, store, ⟨⟨elements, size, sizeEq⟩, scopes, calls, function, pc, base, nesting,
        reader⟩, journal⟩ := world
      dsimp only at values
      subst values
      rw [dropped, empty]
      rfl
  | cons value rest =>
      obtain ⟨config, store, ⟨⟨elements, size, sizeEq⟩, scopes, calls, function, pc, base, nesting,
        reader⟩, journal⟩ := world
      dsimp only at values
      subst values
      rfl

theorem faultless_evaluate (spec : RunSpec stage strict ordinary) (goes : Goes stage host strict go)
    (fuel : Nat) (values : List Value) (holds : stage.holds world) :
    Faultless
      (do
        loadProgram strict fuel values
        runProgram (go fuel))
      (do
        loadProgram ordinary fuel values
        runProgram (drive host ordinary fuel))
      world fun _ after => world.Later after ∧ after.store.Sound ∧
        (world.env.data.elements = [] → world.env.SameStacks after.env) := by
  refine Faultless.bind ((faultless_loadProgram spec fuel values holds).mono ?_)
  rintro _ loaded ⟨forms, loads⟩
  refine Faultless.bind ((faultless_run spec goes (loads.holds holds)
    (Form.programCode_laid loads.enclosed) loads.pc loads.code loads.captures fuel).mono ?_)
  intro _ ended left
  refine faultless_result.mono ?_
  rintro _ _ rfl
  have endedLater : loaded.Later (dropped ended 1) :=
    ⟨left.follows.later.config, left.follows.later.ages⟩
  refine ⟨loads.later.trans endedLater, left.follows.ready.sound, fun empty => ?_⟩
  obtain ⟨own, values, size⟩ := left.values
  have few : own.length ≤ 1 := by
    rw [size]
    split <;> omega
  have none : (ended.env.data.drop 1).elements = [] := by
    change ended.env.data.elements.drop 1 = []
    rw [values, loads.same.data, empty, List.append_nil, List.drop_eq_nil_iff]
    exact few
  constructor
  · exact stack_eq (none.trans empty.symm)
  · exact left.scopes.trans loads.same.scopes
  · exact left.calls.trans loads.same.calls
  · exact left.follows.base.trans loads.same.base
  · exact left.follows.nesting.trans loads.same.nesting
  · exact left.follows.reader.trans loads.same.reader

end Runs

/-- Runs that are given the same fuel, be they driven in one way or in the ordinary one, do the same
without a fault. -/
theorem spec_of_goes {host : Host} {stage : Stage} {go : Perform → Nat → Machine Unit}
    {performs : Nat → Perform} (goes : ∀ perform, Goes stage host perform (go perform))
    (zero : ∀ request, performs 0 request = exhausted)
    (next : ∀ fuel request, performs (fuel + 1) request =
      serve host (performs fuel) fuel (go (performs fuel) fuel) request) (fuel : Nat) :
    RunSpec stage (performs fuel) (perform host fuel) := by
  induction fuel with
  | zero =>
      refine ⟨fun function arguments world _ => ?_, fun forms world _ => ?_⟩
      · rw [zero]
        exact faultless_exhausted
      · rw [zero]
        exact faultless_exhausted
  | succ fuel ih =>
      refine ⟨fun function arguments world holds => ?_, fun forms world opens => ?_⟩
      · rw [next]
        exact faultless_applyFunction ih (goes _) fuel function arguments holds
      · rw [next]
        exact faultless_evaluate ih (goes _) fuel forms (stage.opened world opens)

theorem strictPerform_spec (host : Host) (fuel : Nat) :
    RunSpec .everywhere (strictPerform host fuel) (perform host fuel) :=
  spec_of_goes (goes_strictDrive .everywhere host) (fun _ => rfl) (fun _ _ => rfl) fuel

end Machine

end StackLisp
