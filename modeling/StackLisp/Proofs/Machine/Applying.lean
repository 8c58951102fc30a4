import StackLisp.Proofs.Machine.Tracing

/-!
Applied functions. Whoever applies a function gets the value of one call, which is told of first and
whose return is told of last, whatever is called in between.
-/

namespace StackLisp.Machine

def applyStub (function : Value) (arguments : List Value) : Function :=
  .program "__apply" (applyCode function arguments).toArray

section Stub

variable {host : Host} {function : Value} {arguments : List Value} {place : Nat} {start world : World}

theorem applyStub_code (function : Value) (arguments : List Value) (place : Nat) :
    (applyStub function arguments).code[place]? =
      ((function :: arguments).map .push ++ [.dispatch arguments.length])[place]? := by
  rw [applyStub, Function.program, Function.code, List.getElem?_toArray]
  rfl

theorem applyStub_pushes (function : Value) (before : place < arguments.length + 1) :
    ∃ value, (applyStub function arguments).code[place]? = some (.push value) := by
  refine ⟨(function :: arguments)[place], ?_⟩
  rw [applyStub_code, List.getElem?_append_left (by simpa using before), List.getElem?_map,
    List.getElem?_eq_getElem before]
  rfl

theorem applyStub_dispatch : (applyStub function arguments).code[arguments.length + 1]? =
    some (.dispatch arguments.length) := by
  rw [applyStub_code, List.getElem?_append_right (by simp)]
  simp

theorem applyStub_end : (applyStub function arguments).code[arguments.length + 2]? = none := by
  simp [applyStub_code]

theorem nextInstr?_at {env : Env} {running : Function} (same : env.function = running)
    (pc : env.pc = some place) : nextInstr? env = running.code[place]? := by
  rw [nextInstr?, pc, same]
  rfl

theorem execute_push {perform : Perform} {value : Value} {after : World}
    (executed : execute host perform (.push value) world = .ok () after) :
    after.env.function = world.env.function ∧ after.env.pc = world.env.pc.map (· + 1) := by
  cases executed
  exact ⟨rfl, rfl⟩

structure Preparing (function : Value) (arguments : List Value) (start world : World)
    (place : Nat) : Prop extends start.Quiet world where
  function : world.env.function = applyStub function arguments
  pc : world.env.pc = some place

/-- Where a run of such code is: it has not made the call yet, it is inside of it, or it has its
value. -/
inductive Applying (function : Value) (arguments : List Value) (start world : World) : Prop
  | preparing (place : Nat) : place ≤ arguments.length + 1 →
    Preparing function arguments start world place → Applying function arguments start world
  | within (caller entered : World) (frame : CallFrame) :
    Preparing function arguments start caller (arguments.length + 1) →
    caller.Entered entered frame → entered.Upon world → Applying function arguments start world
  | done (value : Value) : start.Calls world value → world.env.data.elements.head? = some value →
    nextInstr? world.env = none → Applying function arguments start world

theorem Applying.inOrder (applying : Applying function arguments start world) :
    start.InOrder world := by
  cases applying with
  | preparing place inside preparing => exact ⟨[], World.opens_of_eq preparing.events⟩
  | within caller entered frame preparing call upon =>
      obtain ⟨passed, events⟩ := call.told
      obtain ⟨own, _, opens⟩ := upon
      have called := (World.opens_of_eq preparing.events).called events
      exact ⟨_, called.trans opens⟩
  | done value calls => exact ⟨[], calls.opens⟩

theorem Preparing.done {caller after : World} {value : Value}
    (preparing : Preparing function arguments start caller (arguments.length + 1))
    (calls : caller.Calls after value) (top : after.env.data.elements.head? = some value)
    (same : after.env.function = caller.env.function)
    (pc : after.env.pc = caller.env.pc.map (· + 1)) : Applying function arguments start after := by
  refine .done value ?_ top ?_
  · obtain ⟨name, passed, inner, events, closed⟩ := calls
    exact ⟨name, passed, inner, by rw [events, preparing.events], closed⟩
  · rw [preparing.pc] at pc
    rw [nextInstr?_at (same.trans preparing.function) pc, applyStub_end]

theorem Applying.step {perform : Perform} {instr : Instr} {after : World}
    (applying : Applying function arguments start world)
    (stepped : Stepped host perform world instr after) :
    Applying function arguments start after := by
  obtain ⟨next, told, logged, sameEnv, executed⟩ := stepped
  cases applying with
  | preparing place inside preparing =>
      rw [nextInstr?_at preparing.function preparing.pc] at next
      rcases Nat.lt_or_eq_of_le inside with before | rfl
      · obtain ⟨value, pushes⟩ := applyStub_pushes function before
        rw [pushes] at next
        cases next
        obtain ⟨sameFunction, pc⟩ := execute_push executed
        obtain ⟨events, calls⟩ := told
        rw [sameEnv] at sameFunction pc
        refine .preparing (place + 1) before ⟨⟨?_, ?_⟩, ?_, ?_⟩
        · exact events.trans preparing.events
        · exact calls.trans preparing.calls
        · exact sameFunction.trans preparing.function
        · rw [pc, preparing.pc]
          rfl
      · rw [applyStub_dispatch] at next
        cases next
        rcases told with ⟨value, answered⟩ | ⟨frame, entered⟩
        · exact preparing.done answered.told answered.value answered.function answered.pc
        · exact .within world after frame preparing entered (.refl after)
  | within caller entered frame preparing call upon =>
      rcases Nat.lt_or_ge after.env.calls.elements.length entered.env.calls.elements.length with
        left | deep
      · obtain ⟨inner, value, returned, calls, closed⟩ := upon.left told left
        have same := returned.calls.symm.trans (calls.trans call.calls)
        obtain ⟨rfl, _⟩ := List.cons.inj same
        refine preparing.done (call.whole closed returned) returned.value ?_ ?_
        · rw [returned.function, call.caller]
        · rw [returned.pc, call.resume]
      · exact .within caller entered frame preparing call (upon.told told deep)
  | done value calls top ended =>
      rw [ended] at next
      cases next

theorem Applying.ended (applying : Applying function arguments start world)
    (calls : world.env.calls.elements = start.env.calls.elements)
    (ended : nextInstr? world.env = none) :
    ∃ value, start.Calls world value ∧ world.env.data.elements.head? = some value := by
  cases applying with
  | preparing place inside preparing =>
      rw [nextInstr?_at preparing.function preparing.pc] at ended
      rcases Nat.lt_or_eq_of_le inside with before | rfl
      · obtain ⟨value, pushes⟩ := applyStub_pushes function before
        rw [pushes] at ended
        cases ended
      · rw [applyStub_dispatch] at ended
        cases ended
  | within caller entered frame preparing call upon =>
      obtain ⟨own, grown, _⟩ := upon
      have size := congrArg List.length grown
      rw [calls, call.calls, preparing.calls, List.length_append, List.length_cons] at size
      omega
  | done value calls top => exact ⟨value, calls, top⟩

end Stub

section Applications

variable {host : Host} {origin world : World} {watched ordinary : Perform} {go : Nat → Machine Unit}

theorem tells_inside {α : Type} {function : Function} {body watchedBody : Machine α}
    {told : α → World → Prop}
    (tells : Tells (inner function world) watchedBody body (inner function world)
      fun value after => told value (resumed world after)) :
    Tells world (inside function watchedBody) (inside function body) world told := by
  obtain ⟨same, outcome⟩ := tells
  rw [Tells, inside_apply, inside_apply, same]
  refine ⟨rfl, ?_⟩
  cases ended : body (inner function world) with
  | ok value after =>
      rw [ended] at outcome
      exact outcome
  | error stop after =>
      rw [ended] at outcome
      exact outcome

theorem tells_applyCompiled (spec : RunSpec .observed ordinary ordinary)
    (telling : TellSpec origin watched ordinary) (heeds : Heeds origin host watched go) (fuel : Nat)
    (function : Value) (arguments : List Value)
    (staged : ∀ stub, Stage.observed.holds (inner stub world)) (before : origin.InOrder world) :
    Tells world
      (do
        inside (.program "__apply" (applyCode function arguments).toArray) (go fuel)
        pop)
      (do
        inside (.program "__apply" (applyCode function arguments).toArray)
          (drive host ordinary fuel)
        pop)
      world fun value after => world.Calls after value := by
  let stub := applyStub function arguments
  obtain ⟨ground, based, running, _⟩ :=
    starts_run (staged stub) (applyCode_laid function arguments) rfl rfl rfl
  have starts : Applying function arguments (inner stub world) (inner stub world) :=
    .preparing 0 (Nat.zero_le _) ⟨⟨rfl, rfl⟩, rfl, rfl⟩
  have driven : Tells (inner stub world) (go fuel) (drive host ordinary fuel) (inner stub world)
      fun _ after => ∃ value, (inner stub world).Calls after value ∧
        after.env.data.elements.head? = some value := by
    refine (tells_drive spec telling heeds based before (fun _ applying => applying.inOrder)
      (fun _ _ _ applying stepped _ => applying.step stepped) fuel running starts).mono ?_
    rintro _ after ⟨finished, applying, ended⟩
    exact applying.ended (finished.calls.trans based.calls) ended
  refine Tells.bind (tells_inside (driven.mono ?_))
  rintro _ after ⟨value, calls, top⟩
  obtain ⟨rest, data⟩ := List.head?_eq_some_iff.mp top
  exact tells_of_ok (pop_apply data) calls

theorem tells_applyFunction (spec : RunSpec .observed ordinary ordinary)
    (telling : TellSpec origin watched ordinary) (heeds : Heeds origin host watched go) (fuel : Nat)
    (function : Value) (arguments : List Value) (staged : Stage.observed.holds world)
    (before : origin.InOrder world) :
    Tells world (applyFunction host watched (go fuel) function arguments)
      (applyFunction host ordinary (drive host ordinary fuel) function arguments) world
      fun value after => world.Calls after value := by
  have ready := staged.1
  cases function with
  | function ref =>
      refine Tells.bind (tells_of_ok rfl ?_)
      rcases ready.sound.function ref with ⟨parameters, rest, body, captures, _, made⟩ |
        ⟨native, arity, builder, made⟩
      · rw [made]
        by_cases deep : world.config.maxNesting ≤ world.env.nesting
        · refine Tells.bind ⟨rfl, ?_⟩
          rw [checkNesting_refuses deep]
          exact ⟨[], World.opens_of_eq rfl⟩
        · have room := Nat.lt_of_not_le deep
          refine Tells.bind (tells_of_ok (checkNesting_passes room) ?_)
          exact tells_applyCompiled spec telling heeds fuel _ arguments
            (fun stub => Stage.observed.inner world stub staged room) before
      · rw [made]
        refine (tame_ofExcept (arity_harmless _ _ _)).tellsBefore (.refl ready) ready
          ⟨[], World.opens_of_eq rfl⟩ fun _ checked unheard => ?_
        replace staged := Stage.observed.steady staged unheard.steady
        obtain ⟨journal, observed, steady, events⟩ := observe_events
          (.called (world.store.function ref).name arguments) arguments staged
        replace events := events.trans (congrArg (· ++ _) unheard.events)
        have opened := World.Opens.called (World.opens_of_eq rfl) events
        refine Tells.bind (tells_of_ok observed ?_)
        exact tells_native spec telling (Stage.observed.steady staged steady)
          (before.trans ⟨_, opened⟩) events native fun result after _ calls => tells_of_ok rfl calls
  | _ => exact Tells.bind (tells_of_ok rfl (tells_fail ⟨[], World.opens_of_eq rfl⟩))

end Applications

end StackLisp.Machine
