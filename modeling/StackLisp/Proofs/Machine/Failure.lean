import StackLisp.Proofs.Machine.Outcome
import StackLisp.Proofs.Machine.Spared

/-!
What runs leave, be it that they fail. Whoever asked for a run is at the same place of the same program
behind it, and its calls and scopes are where they were; above them a failure leaves those that were
under way.
-/

namespace StackLisp

/-- The same program at the same place, in a state in which runs may start, on stacks that may have
grown. -/
structure World.Resumes (world after : World) : Prop extends world.Deepens after where
  ready : after.Ready
  function : after.env.function = world.env.function
  pc : after.env.pc = world.env.pc
  base : after.env.base = world.env.base

theorem World.Resumes.trans {world between after : World} (first : world.Resumes between)
    (second : between.Resumes after) : world.Resumes after :=
  ⟨first.toDeepens.trans second.toDeepens, second.ready, second.function.trans first.function,
    second.pc.trans first.pc, second.base.trans first.base⟩

namespace Machine

open Keeping

theorem resumes_store {world : World} (ready : world.Ready) {store : Store}
    (ages : world.store.Ages store) (sound : store.Sound) : world.Resumes { world with store } :=
  ⟨⟨⟨rfl, ages⟩, rfl, .here⟩, ⟨sound, ready.base, ready.hasScope⟩, rfl, rfl, rfl⟩

theorem resumes_apart {world after : World} {journal : Journal} (ready : world.Ready)
    (later : (apart journal world).Later after) (sound : after.store.Sound) :
    world.Resumes { after with env := world.env } :=
  ⟨⟨⟨later.config, later.ages⟩, rfl, .here⟩, ⟨sound, ready.base, ready.hasScope⟩, rfl, rfl, rfl⟩

theorem resumes_inner {world after : World} {function : Function} (ready : world.Ready)
    (deepens : (inner function world).Deepens after) (afterReady : after.Ready) :
    world.Resumes (resumed world after) := by
  have deeper := deepens.stacked.calls_le
  rw [← Stack.size_eq, ← Stack.size_eq] at deeper
  exact ⟨⟨⟨deepens.later.config, deepens.later.ages⟩, rfl, deepens.stacked⟩,
    ⟨afterReady.sound, Nat.le_trans ready.base deeper, afterReady.hasScope⟩, rfl, rfl, rfl⟩

def Keeping.resuming (stage : Stage) : Keeping where
  starts := stage.holds
  rel := World.Resumes
  refl := fun holds => resumes_store (stage.ready _ holds) (.refl _) (stage.ready _ holds).sound
  trans := .trans
  kept := fun holds resumes => stage.extended _ _ holds resumes.toDeepens resumes.ready
  store := fun holds grows =>
    have ready := stage.ready _ holds
    resumes_store ready grows.ages (ready.sound.grows grows)
  journal := fun holds =>
    have ready := stage.ready _ holds
    ⟨⟨⟨rfl, .refl _⟩, rfl, .here⟩, ⟨ready.sound, ready.base, ready.hasScope⟩, rfl, rfl, rfl⟩
  data := fun holds =>
    have ready := stage.ready _ holds
    ⟨⟨⟨rfl, .refl _⟩, rfl, .here⟩, ⟨ready.sound, ready.base, ready.hasScope⟩, rfl, rfl, rfl⟩
  apart := fun journal holds room => stage.opened _ (stage.apart _ journal holds room)
  back := fun holds resumes => resumes_apart (stage.ready _ holds) resumes.later resumes.ready.sound

def Moving.resuming (stage : Stage) : Moving where
  toKeeping := Keeping.resuming stage
  done := fun _ _ => True
  moved := fun _ => trivial
  through := fun _ _ => trivial
  closed := fun _ _ _ holds =>
    have ready := stage.ready _ holds
    resumes_store ready (Store.newFunction_ages _ _)
      (ready.sound.newFunction ((ready.sound.function _).closeOver _ _))

variable {host : Host} {stage : Stage} {strict ordinary : Perform} {world after : World}

theorem calls_resuming (serves : (Keeping.resuming stage).Serves ordinary) :
    (Moving.resuming stage).Calls host ordinary := by
  intro world ref key arity builder name arguments holds body
  rcases (stage.ready world holds).sound.function ref with ⟨_, _, _, _, _, made⟩ | ⟨native, _, _, made⟩
  · rw [body] at made
    cases made
  · rw [body] at made
    cases made
    exact (native.tame_call arguments).leaves serves

theorem runProgram_last (go : Machine Unit) (world : World) :
    ∃ data, lastState (runProgram go) world =
      let after := lastState go world
      { after with env := { after.env with data } } := by
  rw [lastState, runProgram, bind_apply, lastState]
  cases go world with
  | ok _ after =>
      simp only [onEnv_apply]
      cases after.env.data.pop? with
      | some taken => exact ⟨taken.2, rfl⟩
      | none => exact ⟨after.env.data, rfl⟩
  | error stop after => exact ⟨after.env.data, rfl⟩

section Runs

variable (spec : RunSpec stage strict ordinary) (serves : (Keeping.resuming stage).Serves ordinary)

include spec serves

theorem drive_failed {ground : Ground} {start : World} {fuel : Nat} {stop : Stop}
    (based : Based stage ground start) (running : Running ground start world)
    (ran : drive host ordinary fuel world = .error stop after) :
    ∃ between, Running ground start between ∧ between.Resumes after := by
  -- Each step that is done leads to a state in the midst of the same run, up to the one that is not.
  induction fuel generalizing world with
  | zero =>
      cases ran
      exact ⟨_, running, (Keeping.resuming stage).refl (running.holds based)⟩
  | succ fuel ih =>
      have stepped : Faultless (step host strict) (step host ordinary) world fun more after =>
          if more then Running ground start after else Finished ground start after :=
        faultless_step spec based running
      obtain ⟨same, outcome⟩ := stepped
      rw [same] at outcome
      cases ended : step host ordinary world with
      | ok more between =>
          rw [ended] at outcome
          simp only [drive, ended] at ran
          cases more with
          | true => exact ih outcome ran
          | false => cases ran
      | error stop between =>
          have calls : (Moving.resuming stage).Calls host ordinary := calls_resuming serves
          have resumes := Moving.ends_step calls world (running.holds based)
          rw [ended] at resumes
          rcases drive_error ended fuel with failed | ⟨journal, forgiven⟩
          · rw [failed] at ran
            cases ran
            exact ⟨world, running, resumes⟩
          · rw [forgiven] at ran
            cases ran

/-- Whatever comes of a run, the stacks below it are what they were. -/
theorem drive_deepens (holds : stage.holds world) {code : Code} {count : Nat}
    (laid : code.Laid none ⟨0, 0⟩ ⟨count, 0⟩) (pc : world.env.pc = some 0)
    (sameCode : world.env.function.code.toList = code)
    (captures : world.env.function.captures = []) (fuel : Nat) :
    let after := lastState (drive host ordinary fuel) world
    world.Deepens after ∧ after.Ready := by
  have ran : Faultless (drive host strict fuel) (drive host ordinary fuel) world fun _ after =>
      Left count world after :=
    faultless_run spec (goes_drive stage host strict) holds laid pc sameCode captures fuel
  obtain ⟨same, outcome⟩ := ran
  rw [same] at outcome
  rw [lastState]
  cases ended : drive host ordinary fuel world with
  | ok value after =>
      rw [ended] at outcome
      obtain ⟨follows, _, scopes, calls⟩ := outcome
      refine ⟨⟨follows.later, follows.nesting, ?_⟩, follows.ready⟩
      rw [scopes, calls]
      exact .here
  | error stop after =>
      obtain ⟨ground, based, running, _⟩ := starts_run holds laid pc sameCode captures
      obtain ⟨between, runs, resumes⟩ := drive_failed spec serves based running ended
      exact ⟨(runs.deepens based).trans resumes.toDeepens, resumes.ready⟩

theorem leaves_applyCompiled (fuel : Nat) (function : Value) (arguments : List Value) :
    (Keeping.resuming stage).Leaves (do
      checkNesting
      inside (.program "__apply" (applyCode function arguments).toArray) (drive host ordinary fuel)
      pop) := by
  refine leaves_checked fun world holds room => ?_
  refine rel_bind holds ?_ fun _ _ _ => leaves_pop
  rw [inside_last]
  let stub : Function := .program "__apply" (applyCode function arguments).toArray
  obtain ⟨deepens, ended⟩ := drive_deepens spec serves (stage.inner world stub holds room)
    (applyCode_laid function arguments) rfl rfl rfl fuel
  exact resumes_inner (stage.ready world holds) deepens ended

theorem leaves_applyFunction (fuel : Nat) (function : Value) (arguments : List Value) :
    (Keeping.resuming stage).Leaves
      (applyFunction host ordinary (drive host ordinary fuel) function arguments) := by
  intro world holds
  cases function with
  | function ref =>
      rw [applyFunction, bind_last (readStore_apply _ world)]
      cases body : (world.store.function ref).body with
      | native key arity builder =>
          have calls : (Moving.resuming stage).Calls host ordinary := calls_resuming serves
          have called := calls world ref key arity builder (world.store.function ref).name arguments
            holds body
          have leaves : (Keeping.resuming stage).Leaves (do
              ofExcept (arity.check (world.store.function ref).name arguments.length)
              observeCall (world.store.function ref).name arguments
              let result ← callNative host ordinary (world.store.function ref).name key arguments
              observeReturn (world.store.function ref).name result
              return result) :=
            (tame_ofExcept (arity_harmless _ _ _)).leavesAlone.bind fun _ =>
              (leaves_observe _ _).bind fun _ => Leaves.bind called fun result =>
                (leaves_observe _ _).bind fun _ => leaves_pure result
          exact leaves world holds
      | compiled parameters rest code captures =>
          exact leaves_applyCompiled spec serves fuel (.function ref) arguments world holds
  | _ => exact Leaves.bind leaves_look (fun _ => leaves_fail _) world holds

theorem evaluate_deepens (fuel : Nat) (values : List Value) (holds : stage.holds world) :
    let after := lastState (do
      loadProgram ordinary fuel values
      runProgram (drive host ordinary fuel)) world
    world.Deepens after ∧ after.Ready := by
  have ready := stage.ready world holds
  obtain ⟨same, outcome⟩ := faultless_loadProgram spec fuel values holds
  rw [same] at outcome
  dsimp only
  cases ran : loadProgram ordinary fuel values world with
  | ok _ loaded =>
      rw [ran] at outcome
      obtain ⟨forms, loads⟩ := outcome
      obtain ⟨further, ended⟩ := drive_deepens spec serves (loads.holds holds)
        (Form.programCode_laid loads.enclosed) loads.pc loads.code loads.captures fuel
      obtain ⟨data, last⟩ := runProgram_last (drive host ordinary fuel) loaded
      replace further := (loads.same.deepens loads.later).trans further
      rw [bind_last ran, last]
      exact ⟨⟨⟨further.later.config, further.later.ages⟩, further.nesting, further.stacked⟩,
        ended.sound, ended.base, ended.hasScope⟩
  | error stop after =>
      rw [lastState, bind_apply, ran]
      obtain ⟨journal, loads⟩ := loadProgram_apply ordinary fuel values world
      rw [ran] at loads
      cases read : Form.readProgram ordinary fuel values world with
      | ok forms between =>
          rw [read] at loads
          cases loads
      | error failure between =>
          rw [read] at loads
          cases loads
          have leaves := (Form.tame_readProgram fuel values).leaves serves
          have resumes := leaves.of_error holds read
          exact ⟨resumes.toDeepens, resumes.ready⟩

end Runs

theorem perform_spec (stage : Stage) (host : Host) (fuel : Nat) :
    RunSpec stage (perform host fuel) (perform host fuel) :=
  spec_of_goes (goes_drive stage host) (fun _ => rfl) (fun _ _ => rfl) fuel

theorem serves_perform (stage : Stage) (host : Host) (fuel : Nat) :
    (Keeping.resuming stage).Serves (perform host fuel) := by
  induction fuel with
  | zero =>
      have still : (Keeping.resuming stage).Leaves (exhausted : Machine Value) :=
        fun _ => (Keeping.resuming stage).refl
      exact ⟨fun _ _ => still, fun _ => still.inNested⟩
  | succ fuel ih =>
      have spec := perform_spec stage host fuel
      refine ⟨fun function arguments => leaves_applyFunction spec ih fuel function arguments,
        fun forms => leaves_inNested fun world journal holds room => ?_⟩
      obtain ⟨deepens, ended⟩ := evaluate_deepens spec ih fuel forms
        (stage.opened _ (stage.apart world journal holds room))
      exact resumes_apart (stage.ready world holds) deepens.later ended.sound

theorem perform_evaluate_deepens (stage : Stage) (host : Host) (fuel : Nat) (values : List Value)
    (holds : stage.holds world) :
    let after := lastState (perform host fuel (.evaluate values)) world
    world.Deepens after ∧ after.Ready := by
  cases fuel with
  | zero =>
      have still := (Keeping.resuming stage).refl holds
      exact ⟨still.toDeepens, still.ready⟩
  | succ fuel =>
      exact evaluate_deepens (perform_spec stage host fuel) (serves_perform stage host fuel) fuel
        values holds

end Machine

end StackLisp
