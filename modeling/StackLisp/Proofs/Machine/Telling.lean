import StackLisp.Proofs.Machine.Bracketed
import StackLisp.Proofs.Machine.Spared

/-!
What computations tell of calls and returns. A tame computation tells of whole calls only, those that
the runs it asks for have made; if it fails, calls of these runs may be left open.
-/

namespace StackLisp

def World.InOrder (world after : World) : Prop := ∃ names, world.Opens after names

structure World.Quiet (world after : World) : Prop where
  events : after.events = world.events
  calls : after.env.calls = world.env.calls

structure World.Unheard (world after : World) : Prop where
  steady : world.Steady after
  events : after.events = world.events

theorem World.Unheard.refl {world : World} (ready : world.Ready) : world.Unheard world :=
  ⟨⟨.refl world, rfl, ready.sound⟩, rfl⟩

theorem World.InOrder.trans {world between after : World} (first : world.InOrder between)
    (second : between.InOrder after) : world.InOrder after := by
  obtain ⟨names, opens⟩ := first
  obtain ⟨more, further⟩ := second
  exact ⟨more ++ names, opens.trans further⟩

namespace Machine

def Stage.observed : Stage where
  holds := fun world => world.Ready ∧ world.config.observing = true
  opens := fun world => world.Ready ∧ world.config.observing = true
  ready := fun _ holds => holds.1
  opened := fun _ opens => opens
  extended := fun _ _ holds deepens ready => ⟨ready, by rw [deepens.later.config, holds.2]⟩
  inner := fun _ function holds _ => ⟨ready_inner holds.1 function, holds.2⟩
  apart := fun _ journal holds _ => ⟨ready_apart holds.1 journal, holds.2⟩

/-- From a state on, a computation does watched what it does else. Of a result it is told what holds;
without one, the calls that were made since the base can still return. -/
def Tells {α : Type} (base : World) (watched ordinary : Machine α) (world : World)
    (told : α → World → Prop) : Prop :=
  watched world = ordinary world ∧
    match ordinary world with
    | .ok value after => told value after
    | .error _ after => base.InOrder after

section Tells

variable {α β : Type} {base : World} {watched ordinary : Machine α} {world : World}

theorem Tells.mono {told weaker : α → World → Prop} (tells : Tells base watched ordinary world told)
    (implied : ∀ value after, told value after → weaker value after) :
    Tells base watched ordinary world weaker := by
  obtain ⟨same, outcome⟩ := tells
  refine ⟨same, ?_⟩
  cases ended : ordinary world with
  | ok value after =>
      rw [ended] at outcome
      exact implied value after outcome
  | error stop after =>
      rw [ended] at outcome
      exact outcome

theorem Tells.congr {otherWatched otherOrdinary : Machine α} {told : α → World → Prop}
    (tells : Tells base watched ordinary world told) (sameWatched : otherWatched world = watched world)
    (sameOrdinary : otherOrdinary world = ordinary world) :
    Tells base otherWatched otherOrdinary world told := by
  rw [Tells, sameWatched, sameOrdinary]
  exact tells

theorem Tells.bind {watchedLater ordinaryLater : α → Machine β} {told : β → World → Prop}
    (tells : Tells base watched ordinary world fun value after =>
      Tells base (watchedLater value) (ordinaryLater value) after told) :
    Tells base (watched >>= watchedLater) (ordinary >>= ordinaryLater) world told := by
  obtain ⟨same, outcome⟩ := tells
  rw [Tells, bind_apply, bind_apply, same]
  cases ended : ordinary world with
  | ok value after =>
      rw [ended] at outcome
      exact outcome
  | error stop after =>
      rw [ended] at outcome
      exact ⟨rfl, outcome⟩

theorem Tells.since {earlier : World} {told : α → World → Prop}
    (tells : Tells base watched ordinary world told) (ordered : earlier.InOrder base) :
    Tells earlier watched ordinary world told := by
  obtain ⟨same, outcome⟩ := tells
  refine ⟨same, ?_⟩
  cases ended : ordinary world with
  | ok value after =>
      rw [ended] at outcome
      exact outcome
  | error stop after =>
      rw [ended] at outcome
      exact ordered.trans outcome

theorem Tells.and {strict : Machine α} {told holds : α → World → Prop}
    (tells : Tells base watched ordinary world told)
    (faultless : Faultless strict ordinary world holds) :
    Tells base watched ordinary world fun value after => holds value after ∧ told value after := by
  obtain ⟨same, outcome⟩ := tells
  obtain ⟨sameStrict, held⟩ := faultless
  rw [sameStrict] at held
  refine ⟨same, ?_⟩
  cases ended : ordinary world with
  | ok value after =>
      rw [ended] at outcome held
      exact ⟨held, outcome⟩
  | error stop after =>
      rw [ended] at outcome
      exact outcome

theorem Tells.of_ok {told : α → World → Prop} (tells : Tells base watched ordinary world told)
    {value : α} {after : World} (ended : watched world = .ok value after) : told value after := by
  obtain ⟨same, outcome⟩ := tells
  rw [← same, ended] at outcome
  exact outcome

theorem Tells.ran {told : α → World → Prop} (tells : Tells base watched ordinary world told) :
    Tells base watched ordinary world fun value after =>
      ordinary world = .ok value after ∧ told value after := by
  obtain ⟨same, outcome⟩ := tells
  refine ⟨same, ?_⟩
  cases ended : ordinary world with
  | ok value after =>
      rw [ended] at outcome
      exact ⟨rfl, outcome⟩
  | error stop after =>
      rw [ended] at outcome
      exact outcome

theorem tells_of_ok {body : Machine α} {value : α} {after : World} {told : α → World → Prop}
    (ended : body world = .ok value after) (held : told value after) :
    Tells base body body world told := by
  refine ⟨rfl, ?_⟩
  rw [ended]
  exact held

theorem tells_fail {cause : Error} {told : α → World → Prop} (ordered : base.InOrder world) :
    Tells base (fail cause) (fail cause) world told := ⟨rfl, ordered⟩

end Tells

/-! Computations that tell of nothing. -/

theorem log_events (level : Level) (message : Unit → String) (world : World) :
    ∃ journal, log level message world = .ok () { world with journal } ∧
      journal.events = world.journal.events := by
  by_cases logging : world.config.logging = true
  · refine ⟨{ world.journal with log := world.journal.log.push (level, message ()) }, ?_, rfl⟩
    simp only [log, bind_apply, currentConfig_apply, logging, ↓reduceIte]
    rfl
  · refine ⟨world.journal, ?_, rfl⟩
    simp only [log, bind_apply, currentConfig_apply, logging]
    rfl

theorem inEnv_ok {α : Type} {other : Env} {body : Machine α} {world after : World} {value : α}
    (ran : body { world with env := other } = .ok value after) :
    inEnv other body world = .ok value { after with env := world.env } := by
  rw [inEnv_apply, ran]

theorem inEnv_error {α : Type} {other : Env} {body : Machine α} {world after : World} {stop : Stop}
    (ran : body { world with env := other } = .error stop after) :
    inEnv other body world = .error stop { after with env := world.env } := by
  rw [inEnv_apply, ran]

theorem inEnv_congr {α : Type} {other : Env} {body body' : Machine α} {world : World}
    (same : body { world with env := other } = body' { world with env := other }) :
    inEnv other body world = inEnv other body' world := by
  rw [inEnv_apply, inEnv_apply, same]

theorem inNested_cases (world : World) :
    (∃ cause, ∀ {α : Type} (body : Machine α), inNested body world = .error (.error cause) world) ∨
      world.env.nesting < world.config.maxNesting ∧
        ∃ journal, journal.events = world.journal.events ∧
          ∀ {α : Type} (body : Machine α), inNested body world =
            inEnv { Env.fresh with nesting := world.env.nesting + 1 } body { world with journal } := by
  by_cases deep : world.config.maxNesting ≤ world.env.nesting
  · left
    exact ⟨_, fun body => by rw [inNested, bind_apply, checkNesting_refuses deep]⟩
  · right
    have room := Nat.lt_of_not_le deep
    obtain ⟨journal, logged, events⟩ := log_events .debug (fun _ => "duplicating environment") world
    refine ⟨room, journal, events, fun body => ?_⟩
    rw [inNested, bind_apply, checkNesting_passes room]
    dsimp only
    rw [bind_apply, logDuplicate, logged]
    rfl

def Silent {α : Type} (body : Machine α) : Prop :=
  ∀ world : World, world.Quiet (lastState body world)

section Silent

variable {α β : Type} {body : Machine α} {base world : World}

theorem Silent.andThen {later : α → Machine β} (first : Silent body)
    (second : ∀ world value after, body world = .ok value after → Silent (later value)) :
    Silent (body >>= later) := by
  intro world
  have kept := first world
  rw [lastState] at kept
  rw [lastState, bind_apply]
  cases ran : body world with
  | ok value after =>
      rw [ran] at kept
      obtain ⟨events, calls⟩ := second world value after ran after
      exact ⟨events.trans kept.events, calls.trans kept.calls⟩
  | error stop after =>
      rw [ran] at kept
      exact kept

theorem Silent.bind {later : α → Machine β} (first : Silent body)
    (second : ∀ value, Silent (later value)) : Silent (body >>= later) :=
  first.andThen fun _ value _ _ => second value

theorem Silent.tells {watched : Machine α} (silent : Silent body) (same : watched world = body world) :
    Tells world watched body world fun _ after => world.Quiet after := by
  have quiet := silent world
  refine ⟨same, ?_⟩
  rw [lastState] at quiet
  cases ended : body world with
  | ok value after =>
      rw [ended] at quiet
      exact quiet
  | error stop after =>
      rw [ended] at quiet
      exact ⟨[], World.opens_of_eq quiet.events⟩

theorem silent_of_same (same : ∀ world, lastState body world = world) : Silent body := by
  intro world
  rw [same world]
  exact ⟨rfl, rfl⟩

theorem silent_inNested (silent : Silent body) : Silent (inNested body) := by
  intro world
  rcases inNested_cases world with ⟨cause, refused⟩ | ⟨_, journal, events, same⟩
  · rw [lastState, refused]
    exact ⟨rfl, rfl⟩
  · have kept := (silent (apart journal world)).events
    rw [lastState, same, ← lastState, inEnv_last]
    exact ⟨kept.trans (World.events_of_journal events), rfl⟩

theorem Tame.silentWithout {holds : α → Prop} {body : Perform → Machine α} (tame : Tame holds body) :
    Silent (body fun _ => exhausted) := by
  induction tame with
  | result | failure | outOfFuel | look | apply => exact silent_of_same fun _ => rfl
  | change => exact fun _ => ⟨rfl, rfl⟩
  | note same => exact fun world => ⟨World.events_of_journal (same world.journal), rfl⟩
  | andThen first _ ihFirst ihLater =>
      exact ihFirst.andThen fun _ value _ ran => ihLater value (first.held ran)
  | applyApart | evaluateApart => exact silent_inNested (silent_of_same fun _ => rfl)

theorem Tame.silent {holds : α → Prop} (tame : Tame holds fun _ => body) : Silent body :=
  tame.silentWithout

end Silent

/-! Computations that ask for runs. -/

structure TellSpec (origin : World) (watched ordinary : Perform) : Prop where
  apply : ∀ function arguments (world : World), Stage.observed.holds world → origin.InOrder world →
    Tells world (watched (.apply function arguments)) (ordinary (.apply function arguments)) world
      fun value after => world.Calls after value
  evaluate : ∀ forms (world : World), Stage.observed.opens world → origin.InOrder world →
    Tells world (watched (.evaluate forms)) (ordinary (.evaluate forms)) world
      fun _ after => world.Opens after []

section Asking

variable {α β : Type} {origin world : World} {watched ordinary : Perform}

theorem tells_inNested {body watchedBody : Machine α}
    (inner : world.env.nesting < world.config.maxNesting →
      ∀ journal, journal.events = world.journal.events →
        Tells (apart journal world) watchedBody body (apart journal world)
          fun _ after => (apart journal world).Opens after []) :
    Tells world (inNested watchedBody) (inNested body) world fun _ after => world.Opens after [] := by
  rcases inNested_cases world with ⟨cause, refused⟩ | ⟨room, journal, events, same⟩
  · rw [Tells, refused, refused]
    exact ⟨rfl, [], World.opens_of_eq rfl⟩
  · have inOrder : world.Opens (apart journal world) [] :=
      World.opens_of_eq (World.events_of_journal events)
    obtain ⟨sameInner, outcome⟩ := inner room journal events
    have watchedSame : inNested watchedBody world = inNested body world := by
      rw [same, same]
      exact inEnv_congr sameInner
    refine ⟨watchedSame, ?_⟩
    cases ended : body (apart journal world) with
    | ok value after =>
        rw [ended] at outcome
        rw [(same body).trans (inEnv_ok ended)]
        exact inOrder.trans outcome
    | error stop after =>
        rw [ended] at outcome
        obtain ⟨names, opens⟩ := outcome
        rw [(same body).trans (inEnv_error ended)]
        exact ⟨names ++ [], inOrder.trans opens⟩

theorem Tame.tells {holds : α → Prop} {body : Perform → Machine α} (tame : Tame holds body)
    (spec : RunSpec .observed ordinary ordinary) (telling : TellSpec origin watched ordinary)
    (staged : Stage.observed.holds world) (ordered : origin.InOrder world) :
    Tells world (body watched) (body ordinary) world fun _ after => world.Opens after [] := by
  induction tame generalizing world with
  | result | look | change => exact tells_of_ok rfl (World.opens_of_eq rfl)
  | failure | outOfFuel => exact ⟨rfl, [], World.opens_of_eq rfl⟩
  | note same => exact tells_of_ok rfl (World.opens_of_eq (World.events_of_journal (same _)))
  | andThen first _ ihFirst ihLater =>
      refine Tells.bind (((ihFirst staged ordered).and (first.faultless spec staged)).mono ?_)
      rintro value between ⟨⟨held, steady⟩, opens⟩
      have later := ihLater value held (Stage.observed.steady staged steady)
        (ordered.trans ⟨[], opens⟩)
      exact (later.since ⟨[], opens⟩).mono fun _ _ further => opens.trans further
  | apply => exact (telling.apply _ _ world staged ordered).mono fun _ _ calls => calls.opens
  | applyApart =>
      refine tells_inNested fun room journal events => ?_
      have inOrder : origin.InOrder (apart journal world) :=
        ordered.trans ⟨[], World.opens_of_eq (World.events_of_journal events)⟩
      exact (telling.apply _ _ _ (Stage.observed.apart world journal staged room) inOrder).mono
        fun _ _ calls => calls.opens
  | evaluateApart =>
      refine tells_inNested fun room journal events => ?_
      have inOrder : origin.InOrder (apart journal world) :=
        ordered.trans ⟨[], World.opens_of_eq (World.events_of_journal events)⟩
      exact telling.evaluate _ _ (Stage.observed.apart world journal staged room) inOrder

theorem Tame.tellsBefore {base first : World} {holds : α → Prop} {body : Machine α}
    (tame : Tame holds fun _ => body) (unheard : first.Unheard world) (ready : first.Ready)
    (ordered : base.InOrder first) {watchedLater ordinaryLater : α → Machine β}
    {told : β → World → Prop}
    (later : ∀ value after, first.Unheard after →
      Tells base (watchedLater value) (ordinaryLater value) after told) :
    Tells base (body >>= watchedLater) (body >>= ordinaryLater) world told := by
  have silent := (tame.silent world).events
  obtain ⟨_, outcome⟩ := tame.quiet (unheard.steady.ready ready)
  refine Tells.bind ⟨rfl, ?_⟩
  rw [lastState] at silent
  cases ended : body world with
  | ok value after =>
      rw [ended] at silent outcome
      exact later value after ⟨unheard.steady.trans outcome.2, silent.trans unheard.events⟩
  | error stop after =>
      rw [ended] at silent
      exact ordered.trans ⟨[], World.opens_of_eq (silent.trans unheard.events)⟩

theorem observe_events (event : Event) (values : List Value) (staged : Stage.observed.holds world) :
    ∃ journal, observe event values world = .ok () { world with journal } ∧
      world.Steady { world with journal } ∧
        World.events { world with journal } = world.events ++ [event] := by
  refine ⟨{ world.journal with
    events := world.journal.events.push (event, values.map world.store.text) }, ?_, ?_, ?_⟩
  · simp only [observe, bind_apply, currentConfig_apply, staged.2, ↓reduceIte]
    rfl
  · exact ⟨⟨rfl, .refl world.store⟩, rfl, staged.1.sound⟩
  · simp [World.events]

end Asking

end Machine

end StackLisp
