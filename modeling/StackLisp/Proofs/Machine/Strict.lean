import StackLisp.Interpreter
import StackLisp.Proofs.Machine.Stage
import StackLisp.Proofs.Native.Tame

/-!
Runs that are not forgiven anything. An ordinary run takes a stack that is found empty outside of all
its calls for the end of its code; a strict run fails, and so do all runs inside of it. A way out of
a loop that was left in the code is a stack underflow to a strict run, which tells it from one that
is refused where it is read.
-/

namespace StackLisp

namespace Machine

section Strict

variable (host : Host) (perform : Perform)

def strictStep : Machine Bool := do
  match nextInstr? (← currentEnv) with
  | some (.leave _) => fail .stackUnderflow
  | _ => step host perform

def strictDrive : Nat → Machine Unit
  | 0 => exhausted
  | fuel + 1 => do
    if ← strictStep host perform then strictDrive fuel

end Strict

/-- Does what is requested in strict runs, in those that this leads to as well. -/
def strictPerform (host : Host) : Nat → Request → Machine Value
  | 0, _ => exhausted
  | fuel + 1, request =>
    serve host (strictPerform host fuel) fuel (strictDrive host (strictPerform host fuel) fuel) request

/-! What strict and ordinary computations have in common. -/

/-- From a state on, two computations do the same, and if they fail, it is with no fault; of a
result it is told what holds. -/
def Faultless {α : Type} (strict ordinary : Machine α) (world : World)
    (holds : α → World → Prop) : Prop :=
  strict world = ordinary world ∧
    match strict world with
    | .ok value after => holds value after
    | .error (.error cause) _ => cause.isFault = false
    | .error .exhausted _ => True

/-- From a state on, a computation that is watched does what it does unwatched, and it is not
stopped. -/
def Unstopped {α : Type} (watched ordinary : Machine α) (world : World) : Prop :=
  watched world = ordinary world ∧
    ∀ after, watched world ≠ .error (.error .stackUnderflow) after

section Faultless

variable {α β : Type} {strict ordinary : Machine α} {world : World}

theorem Faultless.mono {holds weaker : α → World → Prop}
    (faultless : Faultless strict ordinary world holds)
    (implied : ∀ value after, holds value after → weaker value after) :
    Faultless strict ordinary world weaker := by
  obtain ⟨same, outcome⟩ := faultless
  refine ⟨same, ?_⟩
  cases ended : strict world with
  | ok value after =>
      rw [ended] at outcome
      exact implied value after outcome
  | error stop after =>
      rw [ended] at outcome
      cases stop with
      | error cause => exact outcome
      | exhausted => trivial

theorem Faultless.of_eq {other : Machine α} {holds : α → World → Prop}
    (same : other world = strict world) (faultless : Faultless strict ordinary world holds) :
    Faultless other ordinary world holds := by
  rw [Faultless, same]
  exact faultless

theorem Faultless.bind {strictLater ordinaryLater : α → Machine β} {holds : β → World → Prop}
    (faultless : Faultless strict ordinary world fun value after =>
      Faultless (strictLater value) (ordinaryLater value) after holds) :
    Faultless (strict >>= strictLater) (ordinary >>= ordinaryLater) world holds := by
  obtain ⟨same, outcome⟩ := faultless
  rw [Faultless, bind_apply, bind_apply, ← same]
  cases ended : strict world with
  | ok value after =>
      rw [ended] at outcome
      exact outcome
  | error stop after =>
      rw [ended] at outcome
      cases stop with
      | error cause => exact ⟨rfl, outcome⟩
      | exhausted => exact ⟨rfl, trivial⟩

theorem faultless_of_ok {body : Machine α} {value : α} {after : World}
    {holds : α → World → Prop} (ended : body world = .ok value after) (held : holds value after) :
    Faultless body body world holds := by
  refine ⟨rfl, ?_⟩
  rw [ended]
  exact held

theorem faultless_fail {cause : Error} {holds : α → World → Prop}
    (spared : cause.isFault = false) :
    Faultless (fail cause) (fail cause) world holds := ⟨rfl, spared⟩

theorem faultless_exhausted {holds : α → World → Prop} :
    Faultless (exhausted : Machine α) exhausted world holds := ⟨rfl, trivial⟩

theorem Faultless.unstopped {holds : α → World → Prop}
    (faultless : Faultless strict ordinary world holds) : Unstopped strict ordinary world := by
  obtain ⟨same, outcome⟩ := faultless
  refine ⟨same, fun after stopped => ?_⟩
  rw [stopped] at outcome
  cases outcome

end Faultless

/-! Tame computations. -/

structure RunSpec (stage : Stage) (strict ordinary : Perform) : Prop where
  apply : ∀ function arguments (world : World), stage.holds world →
    Faultless (strict (.apply function arguments)) (ordinary (.apply function arguments)) world
      fun _ after => world.Steady after
  evaluate : ∀ forms (world : World), stage.opens world →
    Faultless (strict (.evaluate forms)) (ordinary (.evaluate forms)) world
      fun _ after => world.Later after ∧ after.store.Sound ∧
        (world.env.data.elements = [] → world.env.SameStacks after.env)

section Tame

variable {α : Type} {stage : Stage} {strict ordinary : Perform} {world : World}

theorem faultless_inEnv {other : Env} {body strictBody : Machine α}
    (faultless : Faultless strictBody body { world with env := other } fun _ after =>
      World.Later { world with env := other } after ∧ after.store.Sound) :
    Faultless (inEnv other strictBody) (inEnv other body) world fun _ after =>
      world.Steady after := by
  obtain ⟨same, outcome⟩ := faultless
  rw [Faultless, inEnv_apply, inEnv_apply, ← same]
  refine ⟨rfl, ?_⟩
  cases ended : strictBody { world with env := other } with
  | ok value after =>
      rw [ended] at outcome
      exact ⟨⟨outcome.1.config, outcome.1.ages⟩, rfl, outcome.2⟩
  | error stop after =>
      rw [ended] at outcome
      cases stop with
      | error cause => exact outcome
      | exhausted => trivial

theorem faultless_checkNesting :
    Faultless checkNesting checkNesting world fun _ after =>
      after = world ∧ world.env.nesting < world.config.maxNesting := by
  by_cases deep : world.config.maxNesting ≤ world.env.nesting
  · refine ⟨rfl, ?_⟩
    rw [checkNesting_refuses deep]
    rfl
  · have room := Nat.lt_of_not_le deep
    exact faultless_of_ok (checkNesting_passes room) ⟨rfl, room⟩

theorem faultless_inNested {body strictBody : Machine α}
    (inner : world.env.nesting < world.config.maxNesting → ∀ journal,
      Faultless strictBody body (apart journal world) fun _ after =>
        (apart journal world).Later after ∧ after.store.Sound) :
    Faultless (inNested strictBody) (inNested body) world fun _ after => world.Steady after := by
  obtain ⟨journal, logged⟩ := log_apply .debug (fun _ => "duplicating environment") world
  refine (faultless_checkNesting.mono ?_).bind
  rintro _ _ ⟨rfl, room⟩
  refine Faultless.bind (faultless_of_ok logged ?_)
  refine Faultless.bind (faultless_of_ok rfl ?_)
  exact (faultless_inEnv (inner room journal)).mono fun _ after steady =>
    ⟨⟨steady.later.config, steady.later.ages⟩, steady.env, steady.sound⟩

theorem RunSpec.applyApart (spec : RunSpec stage strict ordinary)
    (opens : world.env.nesting < world.config.maxNesting → ∀ journal,
      stage.opens (apart journal world))
    (function : Value) (arguments : List Value) :
    Faultless (inNested (strict (.apply function arguments)))
      (inNested (ordinary (.apply function arguments))) world fun _ after => world.Steady after := by
  refine faultless_inNested fun room journal => ?_
  exact (spec.apply _ _ _ (stage.opened _ (opens room journal))).mono fun _ after steady =>
    ⟨steady.later, steady.sound⟩

theorem RunSpec.evaluateApart (spec : RunSpec stage strict ordinary)
    (opens : world.env.nesting < world.config.maxNesting → ∀ journal,
      stage.opens (apart journal world))
    (forms : List Value) :
    Faultless (inNested (strict (.evaluate forms))) (inNested (ordinary (.evaluate forms))) world
      fun _ after => world.Steady after := by
  refine faultless_inNested fun room journal => ?_
  exact (spec.evaluate _ _ (opens room journal)).mono fun _ after outcome =>
    ⟨outcome.1, outcome.2.1⟩

theorem Tame.faultless {holds : α → Prop} {body : Perform → Machine α} (tame : Tame holds body)
    (spec : RunSpec stage strict ordinary) (staged : stage.holds world) :
    Faultless (body strict) (body ordinary) world fun value after =>
      holds value ∧ world.Steady after := by
  have sound := (stage.ready world staged).sound
  induction tame generalizing world with
  | result held => exact faultless_of_ok rfl ⟨held, .refl world, rfl, sound⟩
  | failure spared => exact faultless_fail spared
  | outOfFuel => exact faultless_exhausted
  | look held => exact faultless_of_ok rfl ⟨held world, .refl world, rfl, sound⟩
  | change held grows =>
      have grows := grows world.store
      exact faultless_of_ok rfl ⟨held world.store, ⟨rfl, grows.ages⟩, rfl, sound.grows grows⟩
  | note => exact faultless_of_ok rfl ⟨trivial, ⟨rfl, .refl world.store⟩, rfl, sound⟩
  | andThen _ _ first later =>
      refine ((first staged sound).mono fun value between outcome => ?_).bind
      exact (later value outcome.1 (stage.steady staged outcome.2) outcome.2.sound).mono
        fun _ after last => ⟨last.1, outcome.2.trans last.2⟩
  | apply => exact (spec.apply _ _ world staged).mono fun _ after steady => ⟨trivial, steady⟩
  | applyApart =>
      exact (spec.applyApart (fun room journal => stage.apart _ journal staged room) _ _).mono
        fun _ after steady => ⟨trivial, steady⟩
  | evaluateApart =>
      exact (spec.evaluateApart (fun room journal => stage.apart _ journal staged room) _).mono
        fun _ after steady => ⟨trivial, steady⟩

theorem Tame.quiet {holds : α → Prop} {body : Machine α} (tame : Tame holds fun _ => body)
    (ready : world.Ready) :
    Faultless body body world fun value after => holds value ∧ world.Steady after := by
  have idle : RunSpec .everywhere (fun _ => exhausted) fun _ => exhausted :=
    ⟨fun _ _ _ _ => faultless_exhausted, fun _ _ _ => faultless_exhausted⟩
  exact tame.faultless idle ready

theorem Tame.before {β : Type} {holds : α → Prop} {body : Machine α}
    (tame : Tame holds fun _ => body) (ready : world.Ready)
    {strictLater ordinaryLater : α → Machine β} {post : β → World → Prop}
    (later : ∀ value after, holds value → world.Steady after →
      Faultless (strictLater value) (ordinaryLater value) after post) :
    Faultless (body >>= strictLater) (body >>= ordinaryLater) world post :=
  ((tame.quiet ready).mono fun value after outcome => later value after outcome.1 outcome.2).bind

theorem observe_before {β : Type} {event : Event} {values : List Value} (ready : world.Ready)
    {strictLater ordinaryLater : Unit → Machine β} {post : β → World → Prop}
    (later : ∀ after, world.Steady after →
      Faultless (strictLater ()) (ordinaryLater ()) after post) :
    Faultless (observe event values >>= strictLater) (observe event values >>= ordinaryLater) world
      post := by
  obtain ⟨journal, observed⟩ := observe_apply event values world
  refine Faultless.bind (faultless_of_ok observed (later _ ?_))
  exact ⟨⟨rfl, .refl world.store⟩, rfl, ready.sound⟩

end Tame

end Machine

end StackLisp
