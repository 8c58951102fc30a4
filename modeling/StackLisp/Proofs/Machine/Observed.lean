import StackLisp.Proofs.Machine.Applying
import StackLisp.Proofs.Machine.Safety

/-!
Calls and returns are well bracketed, all along an evaluation. The evaluation is monitored: before
each step, and wherever a function is applied, in the runs inside of others as well, something is
asked of the state and of what is done next. Whatever is asked here is true.
-/

namespace StackLisp

/-- A later state; what was told since is the beginning of a well bracketed word. -/
def World.Fits (world after : World) : Prop :=
  ∃ since rest, after.events = world.events ++ since ∧ Bracketed (since ++ rest)

theorem World.InOrder.fits {world after : World} (ordered : world.InOrder after) :
    world.Fits after := by
  obtain ⟨names, since, events, pending⟩ := ordered
  obtain ⟨rest, bracketed⟩ := Event.bracketed_of_fits pending
  exact ⟨since, rest, events, bracketed⟩

namespace Machine

/-- What is asked before a step: what was told up to here fits, and the step tells of what it
should. -/
structure StepTraced (origin : World) (body : Machine Bool) (world : World) : Prop where
  fits : origin.Fits world
  told : ∀ instr after, nextInstr? world.env = some instr → body world = .ok true after →
    Told world instr after

/-- What is asked where a function is applied: what was told up to here fits, and what is applied
tells of one call that returns the value. -/
structure CallTraced (origin : World) (body : Machine Value) (world : World) : Prop where
  fits : origin.Fits world
  told : ∀ value after, body world = .ok value after → world.Calls after value

section Monitors

variable {α : Type} (law : Machine α → World → Prop) [∀ body, DecidablePred (law body)]

def monitored (body : Machine α) : Machine α := fun world =>
  if law body world then body world else fail .stackUnderflow world

variable {law}

theorem monitored_apply {body : Machine α} {world : World} (held : law body world) :
    monitored law body world = body world := if_pos held

end Monitors

section Monitors

variable (ofSteps : Machine Bool → World → Prop) (ofCalls : Machine Value → World → Prop)
  [∀ body, DecidablePred (ofSteps body)] [∀ body, DecidablePred (ofCalls body)] (host : Host)

def monitoredDrive (perform : Perform) : Nat → Machine Unit
  | 0 => exhausted
  | fuel + 1 => do
    if ← monitored ofSteps (step host perform) then monitoredDrive perform fuel

def monitoredPerform : Nat → Request → Machine Value
  | 0, _ => exhausted
  | fuel + 1, request =>
    let body := serve host (monitoredPerform fuel) fuel
      (monitoredDrive ofSteps host (monitoredPerform fuel) fuel) request
    match request with
    | .apply _ _ => monitored ofCalls body
    | _ => body

end Monitors

section Requests

variable {host : Host} {origin world : World} {watched ordinary : Perform} {go : Nat → Machine Unit}

theorem tells_loadProgram (spec : RunSpec .observed ordinary ordinary)
    (telling : TellSpec origin watched ordinary) (fuel : Nat) (values : List Value)
    (staged : Stage.observed.holds world) (before : origin.InOrder world) :
    Tells world (loadProgram watched fuel values) (loadProgram ordinary fuel values) world
      fun _ after => world.Opens after [] := by
  refine Tells.bind (((Form.tame_readProgram fuel values).tells spec telling staged before).mono ?_)
  intro forms read opens
  obtain ⟨journal, logged, events⟩ := log_events .debug _ read
  refine Tells.bind (tells_of_ok logged (tells_of_ok rfl ?_))
  exact opens.trans (World.opens_of_eq (World.events_of_journal events))

theorem tells_evaluate (spec : RunSpec .observed ordinary ordinary)
    (telling : TellSpec origin watched ordinary) (heeds : Heeds origin host watched go) (fuel : Nat)
    (values : List Value) (staged : Stage.observed.holds world) (before : origin.InOrder world) :
    Tells world
      (do
        loadProgram watched fuel values
        runProgram (go fuel))
      (do
        loadProgram ordinary fuel values
        runProgram (drive host ordinary fuel))
      world fun _ after => world.Opens after [] := by
  refine Tells.bind (((tells_loadProgram spec telling fuel values staged before).and
    (faultless_loadProgram spec fuel values staged)).mono ?_)
  rintro _ loaded ⟨⟨forms, loads⟩, opens⟩
  refine Tells.bind (((tells_run spec telling heeds (loads.holds staged) (before.trans ⟨[], opens⟩)
    (Form.programCode_laid loads.enclosed) loads.pc loads.code loads.captures fuel).since
      ⟨[], opens⟩).mono ?_)
  intro _ ended returned
  exact tells_of_ok (onEnv_apply _ _) (opens.trans returned)

end Requests

section Spec

variable {host : Host} {origin : World} [∀ body, DecidablePred (StepTraced origin body)]

theorem heeds_monitoredDrive {watched ordinary : Perform}
    (spec : RunSpec .observed ordinary ordinary) (telling : TellSpec origin watched ordinary) :
    Heeds origin host watched (monitoredDrive (StepTraced origin) host watched) := by
  refine ⟨rfl, fun ground start world fuel based running ordered _ => ?_⟩
  have held : StepTraced origin (step host watched) world := by
    refine ⟨ordered.fits, fun instr after next ended => ?_⟩
    obtain ⟨_, stepped⟩ := (tells_step spec telling based running ordered).of_ok ended
    obtain rfl := Option.some.inj (next.symm.trans stepped.next)
    exact stepped.told
  rw [monitoredDrive, bind_apply, monitored_apply held, ← bind_apply]

theorem monitoredPerform_tells [∀ body, DecidablePred (CallTraced origin body)] (fuel : Nat) :
    TellSpec origin (monitoredPerform (StepTraced origin) (CallTraced origin) host fuel)
      (perform host fuel) := by
  induction fuel with
  | zero =>
      exact ⟨fun _ _ _ _ _ => ⟨rfl, [], World.opens_of_eq rfl⟩,
        fun _ _ _ _ => ⟨rfl, [], World.opens_of_eq rfl⟩⟩
  | succ fuel ih =>
      have spec : RunSpec .observed (perform host fuel) (perform host fuel) :=
        perform_spec .observed host fuel
      have heeds : Heeds origin host _ (monitoredDrive (StepTraced origin) host _) :=
        heeds_monitoredDrive spec ih
      refine ⟨fun function arguments world staged before => ?_, fun forms world staged before => ?_⟩
      · have tells := tells_applyFunction spec ih heeds fuel function arguments staged before
        have held := before.fits
        exact tells.congr (monitored_apply ⟨held, fun _ _ ended => tells.of_ok ended⟩) rfl
      · exact tells_evaluate spec ih heeds fuel forms staged before

end Spec

end Machine

namespace Interpreter

open Machine

theorem silent_readText (text : String) : Silent (readText text) := by
  refine Silent.bind (fun world => ⟨rfl, rfl⟩) fun told => ?_
  obtain ⟨data, error⟩ := told
  cases error with
  | none => exact fun world => ⟨rfl, rfl⟩
  | some cause => exact silent_fail cause

def monitoredEvalText (ofSteps : Machine Bool → World → Prop) (ofCalls : Machine Value → World → Prop)
    [∀ body, DecidablePred (ofSteps body)] [∀ body, DecidablePred (ofCalls body)] (host : Host)
    (fuel : Nat) (text : String) : Machine Value := do
  monitoredPerform ofSteps ofCalls host fuel (.evaluate (← readText text))

section Evaluation

variable {world : World}

theorem tells_evalText [∀ body, DecidablePred (StepTraced world body)]
    [∀ body, DecidablePred (CallTraced world body)] (host : Host) (fuel : Nat) (text : String)
    (ready : world.Ready) (observing : world.config.observing = true) :
    Tells world (monitoredEvalText (StepTraced world) (CallTraced world) host fuel text)
      (evalText host fuel text) world fun _ after => world.Opens after [] := by
  have silent := (silent_readText text world).events
  obtain ⟨_, outcome⟩ := faultless_reading text ready
  refine Tells.bind ⟨rfl, ?_⟩
  rw [lastState] at silent
  cases ended : readText text world with
  | ok values read =>
      rw [ended] at silent outcome
      obtain ⟨later, readReady, _⟩ := outcome
      have opens : world.Opens read [] := World.opens_of_eq silent
      have staged : Stage.observed.opens read := ⟨readReady, by rw [later.config, observing]⟩
      have telling : TellSpec world _ (perform host fuel) := monitoredPerform_tells fuel
      exact ((telling.evaluate values read staged ⟨[], opens⟩).since ⟨[], opens⟩).mono
        fun _ _ further => opens.trans further
  | error stop read =>
      rw [ended] at silent
      exact ⟨[], World.opens_of_eq silent⟩

theorem faultless_evalText (host : Host) (fuel : Nat) (text : String) (ready : world.Ready) :
    Faultless (evalText host fuel text) (evalText host fuel text) world fun _ _ => True := by
  refine Faultless.bind ((faultless_reading text ready).mono ?_)
  rintro values read ⟨_, readReady, _⟩
  exact ((perform_spec .everywhere host fuel).evaluate values read readReady).mono
    fun _ _ _ => trivial

theorem events_of_run {α : Type} {body : Machine α} {count : Nat}
    (told : EStateM.run' (do let _ ← body; return (← get).events.length) world = some count) :
    ∃ value after, body world = .ok value after ∧ after.events.length = count := by
  delta EStateM.run' EStateM.run at told
  rw [bind_apply] at told
  cases ended : body world with
  | ok value after =>
      rw [ended] at told
      exact ⟨value, after, rfl, Option.some.inj told⟩
  | error stop after =>
      rw [ended] at told
      cases told

/-- Wherever the evaluation of a text comes to, what was told is the beginning of a well bracketed
word, and a return is told of with the value that the caller goes on with; and if the evaluation gives
a value, every call has returned. -/
theorem evalText_bracketed [∀ body, DecidablePred (StepTraced world body)]
    [∀ body, DecidablePred (CallTraced world body)] (host : Host) (fuel : Nat) (text : String)
    (ready : world.Ready) (observing : world.config.observing = true) :
    monitoredEvalText (StepTraced world) (CallTraced world) host fuel text world =
        evalText host fuel text world ∧
      (∀ after, monitoredEvalText (StepTraced world) (CallTraced world) host fuel text world ≠
        .error (.error .stackUnderflow) after) ∧
      world.Fits (lastState (evalText host fuel text) world) ∧
      ∀ value after, evalText host fuel text world = .ok value after →
        ∃ since, after.events = world.events ++ since ∧ Bracketed since := by
  obtain ⟨same, outcome⟩ := tells_evalText host fuel text ready observing
  refine ⟨same, fun after failed => ?_, ?_, fun value after ended => ?_⟩
  · obtain ⟨_, spared⟩ := faultless_evalText host fuel text ready
    rw [← same, failed] at spared
    cases spared
  · rw [lastState]
    cases ended : evalText host fuel text world with
    | ok value after =>
        rw [ended] at outcome
        exact World.InOrder.fits ⟨[], outcome⟩
    | error stop after =>
        rw [ended] at outcome
        exact World.InOrder.fits outcome
  · rw [ended] at outcome
    obtain ⟨since, events, closed⟩ := outcome
    exact ⟨since, events, Event.bracketed_of_pending since closed⟩

theorem evalText_bracketed_squares :
    let text := "(map (fn [x] (* x x)) (list 1 2))"
    let start := fresh ⟨10000, 32, true, false, false⟩
    start.Ready ∧ start.config.observing = true ∧ ∃ value after,
      evalText .none 40 text start = .ok value after ∧ after.events.length = 12 ∧
        ∃ since, after.events = start.events ++ since ∧ Bracketed since := by
  have ofSteps (origin : World) (body : Machine Bool) : DecidablePred (StepTraced origin body) :=
    fun world => Classical.propDecidable (StepTraced origin body world)
  have ofCalls (origin : World) (body : Machine Value) : DecidablePred (CallTraced origin body) :=
    fun world => Classical.propDecidable (CallTraced origin body world)
  intro text start
  have ready : start.Ready := fresh_ready _
  have ran : ∃ value after, evalText .none 40 text start = .ok value after ∧
      after.events.length = 12 := events_of_run (by decide +kernel)
  obtain ⟨_, _, _, closed⟩ := evalText_bracketed .none 40 text ready rfl
  obtain ⟨value, after, ended, length⟩ := ran
  exact ⟨ready, rfl, value, after, ended, length, closed value after ended⟩

end Evaluation

end Interpreter

end StackLisp
