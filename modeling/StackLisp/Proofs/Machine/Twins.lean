import StackLisp.Proofs.Machine.Guarded

/-!
Two runs side by side, from states that differ in their readers at most. Nothing but the functions of a
host uses the reader, so they give the same; and one of the two may be guarded, if the law holds all
along.
-/

namespace StackLisp

/-- The same state, but for the reader where it is not heard. -/
def World.Twin (hears : Prop) (world twin : World) : Prop :=
  ∃ reader, twin = world.reading reader ∧ (hears → reader = world.env.reader)

theorem World.Twin.refl {hears : Prop} (world : World) : world.Twin hears world :=
  ⟨world.env.reader, rfl, fun _ => rfl⟩

namespace Machine

/-- What holds wherever runs may be: all moves keep it, and runs inside of others start with it. -/
structure Law where
  holds : World → Prop
  kept : ∀ {world after}, holds world → world.Becomes .all after → holds after
  inner : ∀ {world} function, holds world → world.env.nesting < world.config.maxNesting →
    holds (inner function world)
  apart : ∀ {world nesting}, holds world → nesting ≤ world.config.maxNesting →
    holds { world with env := { Env.fresh with nesting } }

def Law.none : Law := ⟨fun _ => True, fun _ _ => trivial, fun _ _ _ => trivial, fun _ _ => trivial⟩

inductive Alike (hears : Prop) {α : Type} :
    EStateM.Result Stop World α → EStateM.Result Stop World α → Prop
  | ok {after twin : World} (value : α) :
    after.Twin hears twin → Alike hears (.ok value after) (.ok value twin)
  | error {after twin : World} (stop : Stop) :
    after.Twin hears twin → Alike hears (.error stop after) (.error stop twin)

theorem Alike.refl {hears : Prop} {α : Type} (result : EStateM.Result Stop World α) :
    Alike hears result result := by
  cases result with
  | ok value after => exact .ok value (.refl after)
  | error stop after => exact .error stop (.refl after)

theorem Alike.eq {α : Type} {result other : EStateM.Result Stop World α}
    (alike : Alike True result other) : result = other := by
  cases alike with
  | ok value twins =>
      obtain ⟨reader, rfl, same⟩ := twins
      rw [same trivial]
      rfl
  | error stop twins =>
      obtain ⟨reader, rfl, same⟩ := twins
      rw [same trivial]
      rfl

/-- Two computations that give the same wherever the law holds. -/
structure Twins (law : Law) (hears : Prop) {α : Type} (body other : Machine α) : Prop where
  behaves : Behaves .all body
  alike : ∀ world twin, law.holds world → world.Twin hears twin →
    Alike hears (body world) (other twin)

section Twins

variable {law : Law} {hears : Prop} {α β : Type}

theorem Twins.kept {body other : Machine α} (twins : Twins law hears body other) {world : World}
    (held : law.holds world) : law.holds (lastState body world) :=
  law.kept held (twins.behaves world)

theorem alike_bind {body other : Machine α} {later others : α → Machine β} {world twin : World}
    (first : Alike hears (body world) (other twin))
    (second : ∀ value after twin, body world = .ok value after → after.Twin hears twin →
      Alike hears (later value after) (others value twin)) :
    Alike hears ((body >>= later) world) ((other >>= others) twin) := by
  rw [bind_apply, bind_apply]
  generalize ended : body world = result, other twin = outcome at first
  cases first with
  | ok value twins => exact second value _ _ ended twins
  | error stop twins => exact .error stop twins

theorem Twins.bind {body other : Machine α} {later others : α → Machine β}
    (first : Twins law hears body other)
    (second : ∀ value, Twins law hears (later value) (others value)) :
    Twins law hears (body >>= later) (other >>= others) := by
  refine ⟨first.behaves.bind fun value => (second value).behaves, fun world twin held same => ?_⟩
  refine alike_bind (first.alike world twin held same) fun value after twin ended same => ?_
  have kept := first.kept held
  rw [lastState, ended] at kept
  exact (second value).alike after twin kept same

theorem twins_pure (value : α) : Twins law hears (pure value) (pure value) :=
  ⟨fun _ => .refl, fun _ _ _ same => .ok value same⟩

theorem twins_fail (cause : Error) :
    Twins law hears (fail cause : Machine α) (fail cause) :=
  ⟨fun _ => .refl, fun _ _ _ same => .error _ same⟩

theorem twins_exhausted : Twins law hears (exhausted : Machine α) exhausted :=
  ⟨fun _ => .refl, fun _ _ _ same => .error _ same⟩

theorem twins_look {read : World → α}
    (blind : ∀ world reader, read (world.reading reader) = read world) :
    Twins law hears (do return read (← get)) (do return read (← get)) := by
  refine ⟨fun _ => .refl, ?_⟩
  rintro world _ _ ⟨reader, rfl, heard⟩
  have same : (do return read (← get) : Machine α) (world.reading reader) =
      .ok (read world) (world.reading reader) := by
    rw [← blind world reader]
    rfl
  rw [same]
  exact .ok _ ⟨reader, rfl, heard⟩

theorem twins_onStore {change : Store → α × Store}
    (develops : ∀ store : Store, store.Develops .all (change store).2) :
    Twins law hears (onStore change) (onStore change) := by
  refine ⟨fun world => .stored (develops world.store), ?_⟩
  rintro world _ _ ⟨reader, rfl, heard⟩
  exact .ok _ ⟨reader, rfl, heard⟩

theorem twins_onJournal (change : Journal → Journal) :
    Twins law hears (onJournal change) (onJournal change) := by
  refine ⟨fun _ => .told _, ?_⟩
  rintro world _ _ ⟨reader, rfl, heard⟩
  exact .ok _ ⟨reader, rfl, heard⟩

theorem twins_onEnv {change : Env → α × Env}
    (moves : ∀ world : World, world.Becomes .all { world with env := (change world.env).2 })
    (blind : ∀ env reader, change { env with reader } =
      ((change env).1, { (change env).2 with reader }))
    (leaves : ∀ env, (change env).2.reader = env.reader) :
    Twins law hears (onEnv change) (onEnv change) := by
  refine ⟨moves, ?_⟩
  rintro world _ _ ⟨reader, rfl, heard⟩
  have same : change (world.reading reader).env =
      ((change world.env).1, { (change world.env).2 with reader }) := blind world.env reader
  rw [onEnv_apply, onEnv_apply, same]
  exact .ok _ ⟨reader, rfl, fun hears => (heard hears).trans (leaves world.env).symm⟩

theorem Twins.attempt {body other : Machine α} (twins : Twins law hears body other) :
    Twins law hears (attempt body) (attempt other) := by
  refine ⟨fun world => ?_, fun world twin held same => ?_⟩
  · rw [lastState_attempt]
    exact twins.behaves world
  · have alike := twins.alike world twin held same
    simp only [Machine.attempt]
    generalize body world = result, other twin = outcome at alike
    cases alike with
    | ok value twins => exact .ok _ twins
    | error stop twins =>
        cases stop with
        | error cause => exact .ok _ twins
        | exhausted => exact .error _ twins

theorem twins_currentConfig : Twins law hears currentConfig currentConfig :=
  twins_look fun _ _ => rfl

theorem twins_log (level : Level) (message : Unit → String) :
    Twins law hears (log level message) (log level message) := by
  refine twins_currentConfig.bind fun config => ?_
  split
  · exact twins_onJournal _
  · exact twins_pure ()

theorem behaves_checkNesting {writes : Store.Writes} : Behaves writes checkNesting := by
  intro world
  rw [lastState]
  by_cases deep : world.config.maxNesting ≤ world.env.nesting
  · rw [checkNesting_refuses deep]
    exact .refl
  · rw [checkNesting_passes (Nat.lt_of_not_le deep)]
    exact .refl

theorem twins_checkNesting : Twins law hears checkNesting checkNesting := by
  refine ⟨behaves_checkNesting, ?_⟩
  rintro world _ _ ⟨reader, rfl, heard⟩
  by_cases deep : world.config.maxNesting ≤ world.env.nesting
  · have twinDeep : (world.reading reader).config.maxNesting ≤ (world.reading reader).env.nesting :=
      deep
    rw [checkNesting_refuses deep, checkNesting_refuses twinDeep]
    exact .error _ ⟨reader, rfl, heard⟩
  · have room := Nat.lt_of_not_le deep
    have twinRoom : (world.reading reader).env.nesting <
        (world.reading reader).config.maxNesting := room
    rw [checkNesting_passes room, checkNesting_passes twinRoom]
    exact .ok _ ⟨reader, rfl, heard⟩

theorem Twins.inEnv {body other : Machine α} (twins : Twins law hears body other) {env : Env}
    {world twin : World} (held : law.holds { world with env }) (same : world.Twin hears twin) :
    Alike hears (inEnv env body world) (inEnv env other twin) := by
  obtain ⟨reader, rfl, heard⟩ := same
  have alike := twins.alike _ _ held (.refl _)
  rw [inEnv_apply, inEnv_apply]
  simp only [World.reading]
  generalize body { world with env } = result, other { world with env } = outcome at alike
  cases alike with
  | ok value ended =>
      obtain ⟨own, rfl, _⟩ := ended
      exact .ok value ⟨reader, rfl, heard⟩
  | error stop ended =>
      obtain ⟨own, rfl, _⟩ := ended
      exact .error stop ⟨reader, rfl, heard⟩

theorem Twins.inNested {body other : Machine α} (twins : Twins law hears body other) :
    Twins law hears (inNested body) (inNested other) := by
  refine ⟨becomes_inNested twins.behaves, fun world twin held same => ?_⟩
  have checked := twins_checkNesting.alike world twin held same
  rw [Machine.inNested, Machine.inNested, bind_apply, bind_apply]
  by_cases deep : world.config.maxNesting ≤ world.env.nesting
  · rw [checkNesting_refuses deep] at checked ⊢
    generalize checkNesting twin = outcome at checked
    cases checked with
    | error _ same => exact .error _ same
  · have room := Nat.lt_of_not_le deep
    rw [checkNesting_passes room] at checked ⊢
    generalize checkNesting twin = outcome at checked
    cases checked with
    | ok value same =>
        obtain ⟨journal, logged⟩ := log_apply .debug (fun _ => "duplicating environment") world
        have told := (twins_log .debug fun _ => "duplicating environment").alike world _ held same
        have kept := law.kept held (.told journal)
        dsimp only
        rw [logDuplicate, bind_apply, bind_apply]
        rw [logged] at told ⊢
        generalize log .debug (fun _ => "duplicating environment") _ = outcome at told
        cases told with
        | ok value same =>
            obtain ⟨reader, rfl, heard⟩ := same
            exact twins.inEnv (law.apart kept room) ⟨reader, rfl, heard⟩

theorem Acts.twins {body : Perform → Machine α} (acts : Acts .all hears body)
    {perform other : Perform} (serves : ∀ request, Twins law hears (perform request) (other request)) :
    Twins law hears (body perform) (body other) := by
  induction acts with
  | result value => exact twins_pure value
  | failure cause => exact twins_fail cause
  | outOfFuel => exact twins_exhausted
  | look blind => exact twins_look blind
  | change develops => exact twins_onStore develops
  | note change => exact twins_onJournal change
  | andThen _ _ ihFirst ihLater => exact ihFirst.bind ihLater
  | attempted _ ih => exact ih.attempt
  | request asked => exact serves asked
  | nested _ ih => exact ih.inNested
  | apart _ ih =>
      refine ⟨fun world => ?_, fun world twin held same => ?_⟩
      · rw [inEnv_last]
        exact .elsewhere (Nat.zero_le _) (ih.behaves _)
      · exact ih.inEnv (law.apart held (Nat.zero_le _)) same
  | copied _ ih =>
      refine ⟨fun world => ?_, ?_⟩
      · rw [bind_last (currentEnv_apply world), inEnv_last]
        exact .aside (ih.behaves _)
      · rintro world _ held ⟨reader, rfl, heard⟩
        have copy : law.holds (world.reading none) := law.kept held (.heard nofun)
        exact ih.inEnv copy ⟨reader, rfl, heard⟩
  | cleared =>
      have cleared : Twins law hears (onEnv fun env => ((), env.clear))
          (onEnv fun env => ((), env.clear)) :=
        twins_onEnv (fun _ => .cleared) (fun _ _ => rfl) fun _ => rfl
      exact cleared
  | exchange heard grown running =>
      have acts : Acts .all hears _ := .exchange heard grown running
      refine ⟨acts.behaves fun request => (serves request).behaves, ?_⟩
      rintro world _ _ ⟨reader, rfl, same⟩
      rw [same heard]
      exact .refl _
  | stopped heard =>
      have acts : Acts .all hears fun _ => Interpreter.stopReader := .stopped heard
      refine ⟨acts.behaves fun request => (serves request).behaves, ?_⟩
      rintro world _ _ ⟨reader, rfl, same⟩
      rw [same heard]
      exact .refl _

theorem twins_currentEnv {later others : Env → Machine α}
    (blind : ∀ env reader, others { env with reader } = others env)
    (twins : ∀ env, Twins law hears (later env) (others env)) :
    Twins law hears (do later (← currentEnv)) (do others (← currentEnv)) := by
  refine ⟨behaves_currentEnv.bind fun env => (twins env).behaves, ?_⟩
  rintro world _ held ⟨reader, rfl, heard⟩
  have same : others (world.reading reader).env = others world.env := blind world.env reader
  rw [bind_apply, bind_apply, currentEnv_apply, currentEnv_apply]
  dsimp only
  rw [same]
  exact (twins world.env).alike _ _ held ⟨reader, rfl, heard⟩

theorem twins_readStore (read : Store → α) : Twins law hears (readStore read) (readStore read) :=
  twins_look fun _ _ => rfl

theorem twins_ofExcept (result : Except Error α) :
    Twins law hears (ofExcept result) (ofExcept result) := by
  cases result with
  | ok value => exact twins_pure value
  | error cause => exact twins_fail cause

theorem twins_tryOnStore {change : Store → Except Error α × Store}
    (develops : ∀ store : Store, store.Develops .all (change store).2) :
    Twins law hears (tryOnStore change) (tryOnStore change) :=
  (twins_onStore develops).bind twins_ofExcept

theorem twins_observe (event : Event) (values : List Value) :
    Twins law hears (observe event values) (observe event values) := by
  refine twins_currentConfig.bind fun config => ?_
  split
  · exact (twins_readStore _).bind fun _ => twins_onJournal _
  · exact twins_pure ()

theorem twins_modifyEnv {change : Env → Env}
    (moves : ∀ world : World, world.Becomes .all { world with env := change world.env })
    (blind : ∀ env reader, change { env with reader } = { change env with reader })
    (leaves : ∀ env, (change env).reader = env.reader) :
    Twins law hears (modifyEnv change) (modifyEnv change) :=
  twins_onEnv moves (fun env reader => by rw [blind]) leaves

theorem twins_advance : Twins law hears advance advance := by
  unfold advance
  exact twins_modifyEnv (fun _ => becomes_placed rfl) (fun _ _ => rfl) fun _ => rfl

theorem twins_push (value : Value) :
    Twins law hears (do push value; advance) (do push value; advance) := by
  refine Twins.bind ?_ fun _ => twins_advance
  unfold push
  exact twins_modifyEnv (fun _ => becomes_placed rfl) (fun _ _ => rfl) fun _ => rfl

theorem twins_jump (target : Nat) : Twins law hears (jump target) (jump target) := by
  unfold jump
  exact twins_modifyEnv (fun _ => becomes_placed rfl) (fun _ _ => rfl) fun _ => rfl

theorem twins_pop : Twins law hears pop pop := by
  unfold pop
  refine Twins.bind (twins_onEnv (fun world => ?_) (fun env reader => ?_) fun env => ?_) fun popped => ?_
  · cases world.env.data.pop? with
    | some taken => exact becomes_placed rfl
    | none => exact .refl
  · cases env.data.pop? <;> rfl
  · cases env.data.pop? <;> rfl
  · cases popped with
    | some value => exact twins_pure value
    | none => exact twins_fail _

theorem twins_popMany (count : Nat) : Twins law hears (popMany count) (popMany count) := by
  unfold popMany
  refine Twins.bind (twins_onEnv (fun world => ?_) (fun env reader => ?_) fun env => ?_) fun popped => ?_
  · cases world.env.data.popMany? count with
    | some taken => exact becomes_placed rfl
    | none => exact .refl
  · cases env.data.popMany? count <;> rfl
  · cases env.data.popMany? count <;> rfl
  · cases popped with
    | some values => exact twins_pure values
    | none => exact twins_fail _

theorem twins_lookup (symbol : Symbol) : Twins law hears (lookup symbol) (lookup symbol) :=
  twins_currentEnv (fun _ _ => rfl) fun _ =>
    twins_tryOnStore fun store => store.develops_lookup _ _ symbol

end Twins

section Steps

variable {law : Law} {hears : Prop} {host : Host} {perform other : Perform}

theorem twins_callNative (hosted : host.Acts .all hears)
    (serves : ∀ request, Twins law hears (perform request) (other request)) (name : String)
    (key : NativeKey) (arguments : List Value) :
    Twins law hears (callNative host perform name key arguments)
      (callNative host other name key arguments) := by
  cases key with
  | standard native =>
      have acts : Acts .all hears _ := native.acts_call arguments
      exact acts.twins serves
  | hosted key =>
      refine Twins.bind ((hosted key name arguments).twins serves) fun answer => ?_
      cases answer with
      | value value => exact twins_pure value
      | panic message =>
          exact (twins_log _ _).bind fun _ => twins_currentEnv (fun _ _ => rfl) fun _ => twins_fail _

theorem twins_startCall (function : Function) (parameters : List Parameter) (rest : Option Symbol)
    (arguments : List Value) :
    Twins law hears (startCall function parameters rest arguments)
      (startCall function parameters rest arguments) := by
  refine ⟨behaves_startCall function parameters rest arguments, ?_⟩
  rintro world _ _ ⟨reader, rfl, heard⟩
  by_cases deep : world.config.maxCallDepth ≤ world.env.calls.size
  · have twinDeep : (world.reading reader).config.maxCallDepth ≤
        (world.reading reader).env.calls.size := deep
    rw [startCall_refused deep, startCall_refused twinDeep]
    exact .error _ ⟨reader, rfl, heard⟩
  · have room := Nat.lt_of_not_le deep
    have twinRoom : (world.reading reader).env.calls.size <
        (world.reading reader).config.maxCallDepth := room
    cases made : world.store.callScope function.name parameters rest arguments with
    | mk found store =>
        have twinMade : (world.reading reader).store.callScope function.name parameters rest
            arguments = (found, store) := made
        rw [startCall_apply room made, startCall_apply twinRoom twinMade]
        cases found with
        | error cause => exact .error _ ⟨reader, rfl, heard⟩
        | ok ref => exact .ok _ ⟨reader, rfl, heard⟩

theorem twins_callFunction (hosted : host.Acts .all hears)
    (serves : ∀ request, Twins law hears (perform request) (other request)) (function : Function)
    (arguments : List Value) :
    Twins law hears (callFunction host perform function arguments)
      (callFunction host other function arguments) := by
  refine (twins_observe _ _).bind fun _ => ?_
  split
  next key arity builder body =>
    exact (twins_ofExcept _).bind fun _ => (twins_callNative hosted serves _ _ _).bind fun _ =>
      (twins_observe _ _).bind fun _ => twins_push _
  next parameters rest code captures body =>
    exact twins_startCall function parameters rest arguments

theorem twins_returnToCaller : Twins law hears returnToCaller returnToCaller := by
  refine ⟨behaves_returnToCaller, ?_⟩
  rintro world _ held ⟨reader, rfl, heard⟩
  rw [returnToCaller, bind_apply, bind_apply, currentEnv_apply, currentEnv_apply]
  dsimp only [World.reading]
  by_cases ends : world.env.calls.size ≤ world.env.base
  · simp only [ends, ↓reduceIte]
    exact .ok _ ⟨reader, rfl, heard⟩
  · simp only [ends, ↓reduceIte]
    cases world.env.calls.pop? with
    | none => exact .error _ ⟨reader, rfl, heard⟩
    | some taken =>
        refine alike_bind ((twins_observe _ _).alike _ _ held ⟨reader, rfl, heard⟩) ?_
        rintro _ after _ _ ⟨reader, rfl, heard⟩
        exact .ok _ ⟨reader, rfl, heard⟩

theorem twins_execute (hosted : host.Acts .all hears)
    (serves : ∀ request, Twins law hears (perform request) (other request)) (instr : Instr) :
    Twins law hears (execute host perform instr) (execute host other instr) := by
  have called (ref : FunctionRef) (arguments : List Value) : Twins law hears
      (do callFunction host perform (← readStore fun store => store.function ref) arguments)
      (do callFunction host other (← readStore fun store => store.function ref) arguments) :=
    (twins_readStore _).bind fun function => twins_callFunction hosted serves function arguments
  cases instr with
  | push value => exact twins_push value
  | pop =>
      refine Twins.bind (twins_modifyEnv ?_ ?_ ?_) fun _ => twins_advance
      · exact fun _ => becomes_placed rfl
      · exact fun _ _ => rfl
      · exact fun _ => rfl
  | dup =>
      refine twins_currentEnv (fun _ _ => rfl) fun env => ?_
      dsimp only
      split
      · exact twins_push _
      · exact (twins_fail _).bind fun _ => twins_advance
  | get symbol => exact (twins_lookup symbol).bind twins_push
  | put symbol =>
      refine twins_pop.bind fun value => twins_currentEnv (fun _ _ => rfl) fun env => ?_
      exact (twins_tryOnStore fun store => store.develops_bind trivial).bind fun _ => twins_advance
  | set symbol =>
      refine twins_pop.bind fun value => twins_currentEnv (fun _ _ => rfl) fun env => ?_
      refine (twins_tryOnStore fun store => store.develops_assign ?_).bind fun _ => twins_advance
      exact fun _ _ _ _ _ _ => trivial
  | call symbol count =>
      refine (twins_lookup symbol).bind fun value => ?_
      cases value with
      | function ref => exact (twins_popMany count).bind fun arguments => called ref arguments
      | _ => exact (twins_readStore _).bind fun _ => twins_fail _
  | dispatch count =>
      refine (twins_popMany count).bind fun arguments => twins_pop.bind fun value => ?_
      cases value with
      | function ref => exact called ref arguments
      | _ => exact (twins_readStore _).bind fun _ => twins_fail _
  | jump target => exact twins_jump target
  | branch direction target =>
      refine twins_pop.bind fun value => ?_
      split
      · exact twins_jump target
      · exact twins_advance
  | ret => exact twins_returnToCaller
  | closure ref =>
      refine twins_currentEnv (fun _ _ => rfl) fun env => ?_
      exact (twins_onStore fun store => store.develops_newFunction _).bind fun _ => twins_push _
  | openScope =>
      refine (twins_onStore fun store => store.develops_newScope _).bind fun ref => ?_
      refine Twins.bind (twins_modifyEnv ?_ ?_ ?_) fun _ => twins_advance
      · exact fun _ => .opened ref
      · exact fun _ _ => rfl
      · exact fun _ => rfl
  | closeScope =>
      -- Whether it fails depends on the state, so this is no row of actions: both runs are computed.
      refine ⟨fun world => becomes_execute hosted (fun request => (serves request).behaves)
        (permitted_all world .closeScope), ?_⟩
      rintro world _ _ ⟨reader, rfl, heard⟩
      simp only [execute, bind_apply, currentEnv_apply, World.reading]
      by_cases last : world.env.scopes.size ≤ 1
      · simp only [last, ↓reduceIte]
        exact .error _ ⟨reader, rfl, heard⟩
      · simp only [last, ↓reduceIte]
        exact .ok _ ⟨reader, rfl, heard⟩
  | leave exit => exact twins_fail _

theorem twins_step (hosted : host.Acts .all hears)
    (serves : ∀ request, Twins law hears (perform request) (other request)) :
    Twins law hears (step host perform) (step host other) := by
  refine twins_currentEnv (fun _ _ => rfl) fun env => ?_
  cases nextInstr? env with
  | none => exact twins_pure false
  | some instr =>
      have logged : Twins law hears (logInstr instr) (logInstr instr) := by
        refine twins_currentConfig.bind fun config => ?_
        split
        · exact twins_currentEnv (fun _ _ => rfl) fun env =>
            (twins_readStore _).bind fun _ => twins_log _ _
        · exact twins_pure ()
      exact logged.bind fun _ => (twins_execute hosted serves instr).bind fun _ => twins_pure true

theorem Twins.guarded {holds : World → Prop} [DecidablePred holds]
    (implied : ∀ {world}, law.holds world → holds world) {step other : Machine Bool}
    (twins : Twins law hears step other) (alarm : Stop) :
    Twins law hears (guarded holds alarm step) other := by
  refine ⟨fun world => ?_, fun world twin held same => ?_⟩
  · by_cases held : holds world
    · rw [lastState, Machine.guarded, if_pos held]
      exact twins.behaves world
    · rw [lastState, Machine.guarded, if_neg held]
      exact .refl
  · rw [Machine.guarded, if_pos (implied held)]
    exact twins.alike world twin held same

theorem twins_driveBy {step other : Machine Bool} (steps : Twins law hears step other) (fuel : Nat) :
    Twins law hears (driveBy step fuel) (driveBy other fuel) := by
  refine ⟨behaves_driveBy steps.behaves fuel, fun world twin held same => ?_⟩
  induction fuel generalizing world twin with
  | zero => exact .error _ same
  | succ fuel ih =>
      have stepped := steps.alike world twin held same
      have kept := steps.kept held
      rw [lastState] at kept
      simp only [driveBy]
      generalize step world = result, other twin = outcome at stepped kept
      cases stepped with
      | ok more twins =>
          cases more with
          | true => exact ih _ _ kept twins
          | false => exact .ok _ twins
      | error stop same =>
          cases stop with
          | exhausted => exact .error _ same
          | error cause =>
              cases cause with
              | stackUnderflow =>
                  obtain ⟨reader, rfl, heard⟩ := same
                  rename_i after
                  simp only [World.reading]
                  by_cases ends : after.env.calls.size ≤ after.env.base
                  · simp only [ends, ↓reduceIte]
                    exact (twins_log _ _).alike after _ kept ⟨reader, rfl, heard⟩
                  · simp only [ends, ↓reduceIte]
                    exact .error _ ⟨reader, rfl, heard⟩
              | _ => exact .error _ same

theorem twins_runProgram {go other : Machine Unit} (goes : Twins law hears go other) :
    Twins law hears (runProgram go) (runProgram other) := by
  refine goes.bind fun _ => twins_onEnv (fun world => ?_) (fun env reader => ?_) fun env => ?_
  · cases world.env.data.pop? with
    | some taken => exact becomes_placed rfl
    | none => exact .refl
  · cases env.data.pop? <;> rfl
  · cases env.data.pop? <;> rfl

theorem twins_loadProgram (serves : ∀ request, Twins law hears (perform request) (other request))
    (fuel : Nat) (values : List Value) :
    Twins law hears (loadProgram perform fuel values) (loadProgram other fuel values) := by
  refine ((Form.acts_readProgram fuel values).twins serves).bind fun forms => ?_
  refine (twins_log _ _).bind fun _ => twins_modifyEnv ?_ ?_ ?_
  · exact fun _ => becomes_placed rfl
  · exact fun _ _ => rfl
  · exact fun _ => rfl

theorem twins_inside {α : Type} {body other : Machine Unit} {later others : Machine α}
    (twins : Twins law hears body other) (rest : Twins law hears later others)
    (function : Function) :
    Twins law hears (do checkNesting; inside function body; later)
      (do checkNesting; inside function other; others) := by
  refine ⟨behaves_inside twins.behaves rest.behaves function, fun world start held alike => ?_⟩
  refine alike_bind (twins_checkNesting.alike world start held alike) ?_
  intro _ between twin passed same
  have room : between = world ∧ world.env.nesting < world.config.maxNesting := by
    by_cases deep : world.config.maxNesting ≤ world.env.nesting
    · rw [checkNesting_refuses deep] at passed
      cases passed
    · have room := Nat.lt_of_not_le deep
      rw [checkNesting_passes room] at passed
      cases passed
      exact ⟨rfl, room⟩
  obtain ⟨rfl, room⟩ := room
  have run : Alike hears (inside function body between) (inside function other twin) := by
    obtain ⟨reader, rfl, heard⟩ := same
    have alike := twins.alike _ (inner function (between.reading reader))
      (law.inner function held room) ⟨reader, rfl, heard⟩
    rw [inside_apply, inside_apply]
    generalize body (inner function between) = result,
      other (inner function (between.reading reader)) = outcome at alike
    cases alike with
    | ok value ended =>
        obtain ⟨own, rfl, heard⟩ := ended
        exact .ok value ⟨own, rfl, heard⟩
    | error stop ended =>
        obtain ⟨own, rfl, heard⟩ := ended
        exact .error stop ⟨own, rfl, heard⟩
  refine alike_bind run fun _ after twin ended same => rest.alike after twin ?_ same
  have becomes : between.Becomes .all (lastState (inside function body) between) := by
    rw [inside_last]
    exact .inside function room (twins.behaves _)
  rw [lastState, ended] at becomes
  exact law.kept held becomes

theorem twins_applyFunction (hosted : host.Acts .all hears)
    (serves : ∀ request, Twins law hears (perform request) (other request)) {go gone : Machine Unit}
    (goes : Twins law hears go gone) (function : Value) (arguments : List Value) :
    Twins law hears (applyFunction host perform go function arguments)
      (applyFunction host other gone function arguments) := by
  unfold applyFunction
  split
  next ref =>
    refine (twins_readStore _).bind fun called => ?_
    split
    next key arity builder body =>
      exact (twins_ofExcept _).bind fun _ => (twins_observe _ _).bind fun _ =>
        (twins_callNative hosted serves _ _ _).bind fun _ => (twins_observe _ _).bind fun _ =>
          twins_pure _
    next body => exact twins_inside goes twins_pop _
  · exact (twins_readStore _).bind fun _ => twins_fail _

theorem twins_serve (hosted : host.Acts .all hears)
    (serves : ∀ request, Twins law hears (perform request) (other request)) {go gone : Machine Unit}
    (goes : Twins law hears go gone) (fuel : Nat) (request : Request) :
    Twins law hears (serve host perform fuel go request) (serve host other fuel gone request) := by
  cases request with
  | apply function arguments => exact twins_applyFunction hosted serves goes function arguments
  | load forms => exact (twins_loadProgram serves fuel forms).bind fun _ => twins_pure _
  | run => exact twins_runProgram goes
  | evaluate forms =>
      exact (twins_loadProgram serves fuel forms).bind fun _ => twins_runProgram goes

/-- Where the law holds, a guarded run gives the same as an ordinary one, in states that differ in what
is not heard; and what the law implies holds before each step. -/
theorem twins_guardedPerform {holds : World → Prop} [DecidablePred holds]
    (implied : ∀ {world}, law.holds world → holds world) (hosted : host.Acts .all hears) (alarm : Stop)
    (fuel : Nat) (request : Request) :
    Twins law hears (guardedPerform holds alarm host fuel request)
      (Machine.perform host fuel request) := by
  rw [perform_eq]
  induction fuel generalizing request with
  | zero => exact twins_exhausted
  | succ fuel ih =>
      exact twins_serve hosted ih
        (twins_driveBy ((twins_step hosted ih).guarded implied alarm) fuel) fuel request

theorem twins_perform (hosted : host.Acts .all hears) (fuel : Nat) (request : Request) :
    Twins .none hears (Machine.perform host fuel request) (Machine.perform host fuel request) := by
  rw [perform_eq]
  induction fuel generalizing request with
  | zero => exact twins_exhausted
  | succ fuel ih =>
      exact twins_serve hosted ih (twins_driveBy (twins_step hosted ih) fuel) fuel request

end Steps

end Machine

end StackLisp
