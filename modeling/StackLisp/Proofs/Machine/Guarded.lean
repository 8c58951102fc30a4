import StackLisp.Proofs.Machine.Becoming

/-!
Guarded runs: before each step, in the runs inside of others as well, a law is asked for, and the run
gives an alarm where it does not hold. What becomes of a state in such a run is known from what one
step does to a state for which the law holds.
-/

namespace StackLisp.Machine

def guarded (law : World → Prop) [DecidablePred law] (alarm : Stop) (step : Machine Bool) :
    Machine Bool := fun world => if law world then step world else .error alarm world

def driveBy (step : Machine Bool) : Nat → Machine Unit
  | 0 => exhausted
  | fuel + 1 => fun world =>
    match step world with
    | .ok true world => driveBy step fuel world
    | .ok false world => .ok () world
    | .error (.error .stackUnderflow) world =>
      if world.env.calls.size ≤ world.env.base then
        log .debug (fun _ => "stack underflow at top level; stopping") world
      else .error (.error .stackUnderflow) world
    | .error stop world => .error stop world

def performBy (step : Perform → Machine Bool) (host : Host) : Nat → Perform
  | 0, _ => exhausted
  | fuel + 1, request =>
    serve host (performBy step host fuel) fuel (driveBy (step (performBy step host fuel)) fuel)
      request

def guardedPerform (law : World → Prop) [DecidablePred law] (alarm : Stop) (host : Host) :
    Nat → Perform := performBy (fun perform => guarded law alarm (step host perform)) host

theorem drive_eq (host : Host) (perform : Perform) (fuel : Nat) :
    drive host perform fuel = driveBy (step host perform) fuel := by
  induction fuel with
  | zero => rfl
  | succ fuel ih =>
      funext world
      rw [drive, ih]
      rfl

theorem perform_eq (host : Host) (fuel : Nat) :
    perform host fuel = performBy (step host) host fuel := by
  induction fuel with
  | zero => rfl
  | succ fuel ih =>
      funext request
      simp only [perform, performBy, drive_eq, ih]

theorem driveBy_error {step : Machine Bool} {world after : World} {stop : Stop}
    (ran : step world = .error stop after) (fuel : Nat) :
    driveBy step (fuel + 1) world = .error stop after ∨
      ∃ journal, driveBy step (fuel + 1) world = .ok () { after with journal } := by
  simp only [driveBy, ran]
  split
  next told => cases told
  next told => cases told
  next ended told =>
    cases told
    split
    · exact .inr (log_apply _ _ after)
    · exact .inl rfl
  next told =>
    cases told
    exact .inl rfl

section Becoming

variable {writes : Store.Writes} {hears : Prop} {host : Host} {perform : Perform}

theorem becomes_step (hosted : host.Acts writes hears)
    (serves : ∀ request, Behaves writes (perform request)) {world : World}
    (permitted : ∀ instr, nextInstr? world.env = some instr → Permitted writes world instr) :
    world.Becomes writes (lastState (step host perform) world) := by
  rw [step, bind_last (currentEnv_apply world)]
  cases next : nextInstr? world.env with
  | none => exact .refl
  | some instr =>
      obtain ⟨journal, _, logged⟩ := logInstr_apply instr world
      dsimp only
      rw [bind_last logged]
      refine (World.Becomes.told journal).trans (becomes_bind ?_ fun _ _ _ => .refl)
      have same : Permitted writes { world with journal } instr := by
        have held := permitted instr next
        cases instr <;> exact held
      exact becomes_execute hosted serves same

theorem behaves_driveBy {step : Machine Bool} (steps : Behaves writes step) (fuel : Nat) :
    Behaves writes (driveBy step fuel) := by
  induction fuel with
  | zero => exact fun _ => .refl
  | succ fuel ih =>
      intro world
      have stepped := steps world
      rw [lastState] at stepped
      cases ran : step world with
      | ok more after =>
          rw [ran] at stepped
          cases more with
          | true =>
              simp only [lastState, driveBy, ran]
              exact stepped.trans (ih after)
          | false =>
              simp only [lastState, driveBy, ran]
              exact stepped
      | error stop after =>
          rw [ran] at stepped
          rw [lastState]
          obtain failed | ⟨journal, ended⟩ := driveBy_error ran fuel
          · rw [failed]
            exact stepped
          · rw [ended]
            exact stepped.trans (.told journal)

theorem behaves_runProgram {go : Machine Unit} (goes : Behaves writes go) :
    Behaves writes (runProgram go) := by
  refine goes.bind fun _ world => ?_
  rw [lastState, onEnv_apply]
  cases world.env.data.pop? with
  | some taken => exact becomes_placed rfl
  | none => exact .refl

theorem behaves_loadProgram (serves : ∀ request, Behaves writes (perform request)) (fuel : Nat)
    (values : List Value) : Behaves writes (loadProgram perform fuel values) := by
  have acts : Acts writes False fun perform => Form.readProgram perform fuel values :=
    Form.acts_readProgram fuel values
  exact (acts.behaves serves).bind fun _ => (behaves_log _ _).bind fun _ _ => becomes_placed rfl

theorem behaves_inside {α : Type} {body : Machine Unit} {later : Machine α}
    (behaves : Behaves writes body) (others : Behaves writes later) (function : Function) :
    Behaves writes (do checkNesting; inside function body; later) := by
  intro world
  by_cases deep : world.config.maxNesting ≤ world.env.nesting
  · rw [lastState, bind_apply, checkNesting_refuses deep]
    exact .refl
  · have room := Nat.lt_of_not_le deep
    rw [bind_last (checkNesting_passes room)]
    refine becomes_bind ?_ fun _ after _ => others after
    rw [inside_last]
    exact .inside _ room (behaves _)

theorem behaves_applyFunction (hosted : host.Acts writes hears)
    (serves : ∀ request, Behaves writes (perform request)) {go : Machine Unit}
    (goes : Behaves writes go) (function : Value) (arguments : List Value) :
    Behaves writes (applyFunction host perform go function arguments) := by
  unfold applyFunction
  split
  next ref =>
    refine Behaves.bind (fun _ => .refl) fun called => ?_
    split
    next key arity builder body =>
      exact (acts_ofExcept _).behavesAlone.bind fun _ => (behaves_observe _ _).bind fun _ =>
        (behaves_callNative hosted serves _ _ _).bind fun _ => (behaves_observe _ _).bind
          fun _ _ => .refl
    next body => exact behaves_inside goes behaves_pop _
  · exact Behaves.bind (fun _ => .refl) fun _ _ => .refl

theorem behaves_serve (hosted : host.Acts writes hears)
    (serves : ∀ request, Behaves writes (perform request)) {go : Machine Unit}
    (goes : Behaves writes go) (fuel : Nat) (request : Request) :
    Behaves writes (serve host perform fuel go request) := by
  cases request with
  | apply function arguments => exact behaves_applyFunction hosted serves goes function arguments
  | load forms => exact (behaves_loadProgram serves fuel forms).bind fun _ _ => .refl
  | run => exact behaves_runProgram goes
  | evaluate forms =>
      exact (behaves_loadProgram serves fuel forms).bind fun _ => behaves_runProgram goes

theorem behaves_performBy (hosted : host.Acts writes hears) {step : Perform → Machine Bool}
    (steps : ∀ perform, (∀ request, Behaves writes (perform request)) →
      Behaves writes (step perform))
    (fuel : Nat) (request : Request) : Behaves writes (performBy step host fuel request) := by
  induction fuel generalizing request with
  | zero => exact fun _ => .refl
  | succ fuel ih => exact behaves_serve hosted ih (behaves_driveBy (steps _ ih) fuel) fuel request

theorem behaves_guardedPerform (hosted : host.Acts writes hears) {law : World → Prop}
    [DecidablePred law] (alarm : Stop)
    (allows : ∀ world instr, law world → nextInstr? world.env = some instr →
      Permitted writes world instr)
    (fuel : Nat) (request : Request) :
    Behaves writes (guardedPerform law alarm host fuel request) := by
  refine behaves_performBy hosted (fun perform serves world => ?_) fuel request
  by_cases held : law world
  · have same : guarded law alarm (step host perform) world = step host perform world :=
      if_pos held
    rw [lastState, same, ← lastState]
    exact becomes_step hosted serves fun instr next => allows world instr held next
  · have refused : guarded law alarm (step host perform) world = .error alarm world :=
      if_neg held
    rw [lastState, refused]
    exact .refl

theorem permitted_all (world : World) (instr : Instr) : Permitted .all world instr := by
  cases instr with
  | put symbol => exact fun _ _ _ => trivial
  | set symbol => exact fun _ _ _ _ _ _ _ _ _ => trivial
  | _ => exact trivial

theorem behaves_step (hosted : host.Acts .all hears)
    (serves : ∀ request, Behaves .all (perform request)) : Behaves .all (step host perform) :=
  fun world => becomes_step hosted serves fun instr _ => permitted_all world instr

theorem behaves_perform (hosted : host.Acts .all hears) (fuel : Nat) (request : Request) :
    Behaves .all (Machine.perform host fuel request) := by
  rw [perform_eq]
  exact behaves_performBy hosted (fun perform => behaves_step hosted) fuel request

end Becoming

end StackLisp.Machine
