import StackLisp.Proofs.Machine.Failure
import StackLisp.Proofs.Machine.Told

/-!
Runs that are told of. All along the run of a program, the calls that may still return are those that
stand above the ones that it began with; so when it ends, they all have returned. A run that applies
a function begins and ends with one call, and gives the value that this call returned.
-/

namespace StackLisp

def World.Upon (base world : World) : Prop :=
  ∃ own, world.env.calls.elements = own ++ base.env.calls.elements ∧
    base.Opens world (own.map CallFrame.callee)

section Upon

variable {base world after : World} {instr : Instr}

theorem World.Upon.refl (world : World) : world.Upon world := ⟨[], rfl, World.opens_of_eq rfl⟩

theorem World.Upon.closed (upon : base.Upon world)
    (calls : world.env.calls.elements = base.env.calls.elements) : base.Opens world [] := by
  obtain ⟨own, grown, opens⟩ := upon
  obtain rfl : own = [] := List.append_left_eq_self.mp (grown.symm.trans calls)
  exact opens

theorem World.Upon.told (upon : base.Upon world) (told : Told world instr after)
    (deep : base.env.calls.elements.length ≤ after.env.calls.elements.length) : base.Upon after := by
  obtain ⟨own, calls, opens⟩ := upon
  rcases told.cases with quiet | ⟨value, answered⟩ | ⟨frame, entered⟩ | ⟨frame, value, returned⟩
  · exact ⟨own, quiet.calls ▸ calls, opens.trans (World.opens_of_eq quiet.events)⟩
  · exact ⟨own, answered.calls ▸ calls, opens.trans answered.told.opens⟩
  · obtain ⟨arguments, events⟩ := entered.told
    exact ⟨frame :: own, by rw [entered.calls, calls, List.cons_append], opens.called events⟩
  · rw [returned.calls] at calls
    cases own with
    | nil =>
        have short := congrArg List.length calls
        rw [List.nil_append, List.length_cons] at short
        omega
    | cons innermost own =>
        obtain ⟨rfl, left⟩ := List.cons.inj calls
        exact ⟨own, left, opens.returned returned.told⟩

theorem World.Upon.left (upon : base.Upon world) (told : Told world instr after)
    (left : after.env.calls.elements.length < base.env.calls.elements.length) :
    ∃ frame value, world.Returned after frame value ∧
      world.env.calls.elements = base.env.calls.elements ∧ base.Opens world [] := by
  have grown := upon
  obtain ⟨own, calls, opens⟩ := grown
  have size : world.env.calls.elements.length = own.length + base.env.calls.elements.length := by
    rw [calls, List.length_append]
  rcases told.cases with quiet | ⟨value, answered⟩ | ⟨frame, entered⟩ | ⟨frame, value, returned⟩
  · rw [quiet.calls] at left
    omega
  · rw [answered.calls] at left
    omega
  · rw [entered.calls, List.length_cons] at left
    omega
  · rw [returned.calls, List.length_cons] at size
    obtain rfl : own = [] := List.eq_nil_of_length_eq_zero (by omega)
    exact ⟨frame, value, returned, calls, opens⟩

theorem World.Entered.whole {entered : World} {frame : CallFrame} {value : Value}
    (call : base.Entered entered frame) (closed : entered.Opens world [])
    (returned : world.Returned after frame value) : base.Calls after value := by
  obtain ⟨arguments, events⟩ := call.told
  obtain ⟨inner, innerEvents, fits⟩ := closed
  refine ⟨frame.callee, arguments, inner, ?_, fits⟩
  rw [returned.told, innerEvents, events]
  simp

end Upon

namespace Machine

structure Stepped (host : Host) (perform : Perform) (world : World) (instr : Instr)
    (after : World) : Prop where
  next : nextInstr? world.env = some instr
  told : Told world instr after
  executed : ∃ logged : World, logged.env = world.env ∧
    execute host perform instr logged = .ok () after

section Steps

variable {host : Host} {origin : World} {watched ordinary : Perform} {ground : Ground}
  {start world : World}

theorem tells_step (spec : RunSpec .observed ordinary ordinary)
    (telling : TellSpec origin watched ordinary) (based : Based .observed ground start)
    (running : Running ground start world) (ordered : origin.InOrder world) :
    Tells world (step host watched) (step host ordinary) world fun more after =>
      if more then ∃ instr, Stepped host ordinary world instr after
      else nextInstr? world.env = none ∧ after = world := by
  refine Tells.bind (tells_of_ok (currentEnv_apply _) ?_)
  cases next : nextInstr? world.env with
  | none => exact tells_of_ok rfl ⟨rfl, rfl⟩
  | some instr =>
      have ready := running.follows.ready
      refine (tame_logInstr instr).tellsBefore (.refl ready) ready ⟨[], World.opens_of_eq rfl⟩
        fun _ logged unheard => ?_
      have steady := unheard.steady
      have alike := unheard.alike
      have sameNext : nextInstr? logged.env = some instr := by rw [steady.env, next]
      refine Tells.bind (((tells_execute spec telling based (running.steady steady)
        (ordered.trans alike.inOrder) sameNext).since alike.inOrder).ran.mono ?_)
      rintro _ after ⟨executed, told⟩
      exact tells_of_ok rfl ⟨instr, next, told.since alike, logged, steady.env, executed⟩

structure Heeds (origin : World) (host : Host) (perform : Perform) (go : Nat → Machine Unit) :
    Prop where
  zero : go 0 = exhausted
  next : ∀ ground start world fuel, Based .observed ground start → Running ground start world →
    origin.InOrder world →
    (∀ after, step host perform world ≠ .error (.error .stackUnderflow) after) →
    go (fuel + 1) world = (do if ← step host perform then go fuel) world

theorem heeds_of_goes {perform : Perform} {go : Nat → Machine Unit}
    (goes : Goes .observed host perform go) : Heeds origin host perform go := by
  refine ⟨goes.zero, fun ground start world fuel based running _ enough => ?_⟩
  rw [goes.next ground start world fuel based running enough, bind_apply]
  cases step host perform world with
  | ok more after => cases more <;> rfl
  | error stop after => rfl

variable {go : Nat → Machine Unit}

/-- What holds at the start of a run and is kept by its steps holds when it ends, where no
instruction is left. -/
theorem tells_drive (spec : RunSpec .observed ordinary ordinary)
    (telling : TellSpec origin watched ordinary) (heeds : Heeds origin host watched go)
    (based : Based .observed ground start) (before : origin.InOrder start) {holds : World → Prop}
    (ordered : ∀ world, holds world → start.InOrder world)
    (kept : ∀ world instr after, holds world → Stepped host ordinary world instr after →
      start.env.calls.elements.length ≤ after.env.calls.elements.length → holds after)
    (fuel : Nat) (running : Running ground start world) (held : holds world) :
    Tells start (go fuel) (drive host ordinary fuel) world fun _ after =>
      Finished ground start after ∧ holds after ∧ nextInstr? after.env = none := by
  induction fuel generalizing world with
  | zero =>
      rw [heeds.zero]
      exact ⟨rfl, ordered world held⟩
  | succ fuel ih =>
      have inOrder := before.trans (ordered world held)
      have stepped : Tells world (step host watched) (step host ordinary) world fun more after =>
          if more then ∃ instr, Stepped host ordinary world instr after
          else nextInstr? world.env = none ∧ after = world :=
        tells_step spec telling based running inOrder
      have faultless : Faultless (step host ordinary) (step host ordinary) world fun more after =>
          if more then Running ground start after else Finished ground start after :=
        faultless_step spec based running
      have enough (after : World) :
          step host ordinary world ≠ .error (.error .stackUnderflow) after := by
        intro short
        obtain ⟨_, outcome⟩ := faultless
        rw [short] at outcome
        cases outcome
      have watchedEnough (after : World) :
          step host watched world ≠ .error (.error .stackUnderflow) after := by
        rw [stepped.1]
        exact enough after
      have drives : Heeds origin host ordinary (drive host ordinary) :=
        heeds_of_goes (goes_drive .observed host ordinary)
      have taken := heeds.next ground start world fuel based running inOrder watchedEnough
      have driven := drives.next ground start world fuel based running inOrder enough
      suffices steps : Tells start (do if ← step host watched then go fuel)
          (do if ← step host ordinary then drive host ordinary fuel) world fun _ after =>
            Finished ground start after ∧ holds after ∧ nextInstr? after.env = none from
        steps.congr taken driven
      refine Tells.bind (((stepped.and faultless).since (ordered world held)).mono ?_)
      rintro (_ | _) after ⟨outcome, told⟩
      · obtain ⟨next, rfl⟩ := told
        exact tells_of_ok rfl ⟨outcome, held, next⟩
      · obtain ⟨instr, stepped⟩ := told
        have deep := (outcome.deepens based).stacked.calls_le
        exact ih outcome (kept world instr after held stepped deep)

theorem tells_run (spec : RunSpec .observed ordinary ordinary)
    (telling : TellSpec origin watched ordinary) (heeds : Heeds origin host watched go)
    (staged : Stage.observed.holds world) (before : origin.InOrder world) {code : Code} {count : Nat}
    (laid : code.Laid none ⟨0, 0⟩ ⟨count, 0⟩) (pc : world.env.pc = some 0)
    (sameCode : world.env.function.code.toList = code)
    (captures : world.env.function.captures = []) (fuel : Nat) :
    Tells world (go fuel) (drive host ordinary fuel) world fun _ after => world.Opens after [] := by
  obtain ⟨ground, based, running, _⟩ := starts_run staged laid pc sameCode captures
  refine (tells_drive spec telling heeds based before (fun _ upon => ?_)
    (fun _ _ _ upon stepped deep => upon.told stepped.told deep) fuel running
    (World.Upon.refl world)).mono ?_
  · obtain ⟨own, _, opens⟩ := upon
    exact ⟨_, opens⟩
  · rintro _ after ⟨finished, upon, _⟩
    exact upon.closed (finished.calls.trans based.calls)

end Steps

end Machine

end StackLisp
