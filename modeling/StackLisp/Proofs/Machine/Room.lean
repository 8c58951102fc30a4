import Mathlib.Tactic.MkIffOfInductiveProp
import StackLisp.Proofs.Machine.Safety
import StackLisp.Proofs.Machine.Unasked

/-!
Runs with room for so many callbacks. A native function that asks for a run waits for it, and so does
an expansion, so of the native functions that are under way all but the innermost have made a request
that is under way as well. Each request inside of another one takes a place, and is refused where no
place is left. How many places are enough is told by how deep runs may be nested, but for the two
functions that apply others: nothing counts how often these apply one another.
-/

namespace StackLisp

/-- The places that callbacks can take at once where runs are nested as deep as they are: on each
level that is left, a function that was asked for and the run that it asks for, and one function
that asks for none. -/
def World.places (world : World) : Nat := 2 * (world.config.maxNesting - world.env.nesting) + 1

theorem World.places_pos (world : World) : 0 < world.places := Nat.succ_pos _

namespace Machine

section Room

variable (free : Store → Request → Bool)

def overflow : Error := .runtime .scopesExhausted

/-- Has a request done within what room is left. Those that are free take no place. -/
def taking (within : Nat → Perform) (room : Nat) (request : Request) : Machine Value := do
  if free (← get).store request then within room request
  else
    match room with
    | 0 => fail overflow
    | room + 1 => within room request

def performWithin (host : Host) : Nat → Nat → Request → Machine Value
  | 0, _, _ => exhausted
  | fuel + 1, room, request =>
    let nested := taking free (performWithin host fuel) room
    serve host nested fuel (drive host nested fuel) request

theorem faultless_taking {within : Nat → Perform} {ordinary : Machine Value} {room : Nat}
    {request : Request} {world : World} {holds : Value → World → Prop} (some : 0 < room)
    (spare : free world.store request = true →
      Faultless (within room request) ordinary world holds)
    (taken : ∀ left, room = left + 1 → free world.store request = false →
      Faultless (within left request) ordinary world holds) :
    Faultless (taking free within room request) ordinary world holds := by
  have read : (get : Machine World) world = .ok world world := rfl
  cases isFree : free world.store request with
  | true =>
      have goesOn : taking free within room request world = within room request world := by
        simp only [taking, bind_apply, read, isFree, ↓reduceIte]
      exact (spare isFree).of_eq goesOn
  | false =>
      obtain ⟨left, rfl⟩ := Nat.exists_eq_succ_of_ne_zero (Nat.ne_of_gt some)
      have goesOn : taking free within (left + 1) request world = within left request world := by
        simp only [taking, bind_apply, read, isFree, Bool.false_eq_true, ↓reduceIte]
      exact (taken left rfl isFree).of_eq goesOn

end Room

def appliesApplier (store : Store) : Request → Bool
  | .apply (.function ref) _ =>
    match (store.function ref).body with
    | .native (.standard .apply) _ _ => true
    | .native (.standard .map) _ _ => true
    | _ => false
  | _ => false

theorem places_inner {world : World} (nests : world.env.nesting < world.config.maxNesting)
    (function : Function) : (inner function world).places + 2 = world.places := by
  simp only [World.places, inner]
  omega

theorem places_apart {world : World} (nests : world.env.nesting < world.config.maxNesting)
    (journal : Journal) : (apart journal world).places + 2 = world.places := by
  simp only [World.places, apart]
  omega

/-- Where the places that are left are enough. A run that starts in an interpreter of its own takes
one more. -/
def Stage.within (room : Nat) : Stage where
  holds := fun world => world.Ready ∧ world.places ≤ room
  opens := fun world => world.Ready ∧ world.places < room
  ready := fun _ holds => holds.1
  opened := fun _ opens => ⟨opens.1, Nat.le_of_lt opens.2⟩
  extended := by
    rintro world after ⟨_, enough⟩ goesOn ready
    refine ⟨ready, ?_⟩
    rwa [World.places, goesOn.later.config, goesOn.nesting]
  inner := by
    rintro world function ⟨ready, enough⟩ nests
    have fewer := places_inner nests function
    exact ⟨ready_inner ready function, by omega⟩
  apart := by
    rintro world journal ⟨ready, enough⟩ nests
    have fewer := places_apart nests journal
    exact ⟨ready_apart ready journal, by omega⟩

section Spec

variable {stage : Stage} {strict ordinary : Perform} {world : World}

theorem faultless_aloof (spec : RunSpec stage strict ordinary) (ready : world.Ready)
    (opens : world.env.nesting < world.config.maxNesting → ∀ journal,
      stage.opens (apart journal world))
    {native : Standard} (notApply : native ≠ .apply) (notMap : native ≠ .map)
    (arguments : List Value) :
    Faultless (native.call strict arguments) (native.call ordinary arguments) world
      fun _ after => world.Steady after := by
  have alone {native : Standard}
      (same : ∀ perform other, native.call perform arguments = native.call other arguments) :
      Faultless (native.call strict arguments) (native.call ordinary arguments) world
        fun _ after => world.Steady after := by
    have tame : IsTame fun _ => native.call ordinary arguments := by
      have tame := native.tame_call arguments
      simpa only [same _ ordinary] using tame
    rw [same strict ordinary]
    exact (tame.quiet ready).mono fun _ _ outcome => outcome.2
  cases native with
  | apply => exact absurd rfl notApply
  | map => exact absurd rfl notMap
  | eval => exact spec.evaluateApart opens _
  | expand =>
      simp only [Standard.call, Native.expand]
      split
      · refine Faultless.bind (faultless_of_ok rfl ?_)
        split
        · exact spec.applyApart opens _ _
        · exact faultless_of_ok rfl ⟨.refl world, rfl, ready.sound⟩
      · exact faultless_of_ok rfl ⟨.refl world, rfl, ready.sound⟩
  | _ => exact alone fun _ _ => rfl

end Spec

theorem faultless_counted {host : Host} {fuel room : Nat} {nested : Perform}
    (spec : RunSpec (.within room) nested (perform host fuel)) {function : Value}
    {arguments : List Value} {world : World}
    (counted : appliesApplier world.store (.apply function arguments) = false)
    (ready : world.Ready) (enough : world.places ≤ room + 1) :
    Faultless (applyFunction host nested (drive host nested fuel) function arguments)
      (applyFunction host (perform host fuel) (drive host (perform host fuel) fuel) function arguments)
      world fun _ after => world.Steady after := by
  refine faultless_applyEither ready (fun nests => ?_) ?_
  · refine faultless_applyCompiled spec (goes_drive _ host nested) fuel function arguments ?_
    intro stub
    have fewer := places_inner nests stub
    exact ⟨ready_inner ready stub, by omega⟩
  · rintro ref native arity builder rfl made between steady
    have betweenReady := steady.ready ready
    have samePlaces : between.places = world.places := by
      rw [World.places, steady.later.config, steady.env, World.places]
    refine faultless_aloof spec betweenReady (fun nests journal => ?_) ?_ ?_ arguments
    · have fewer := places_apart nests journal
      exact ⟨ready_apart betweenReady journal, by omega⟩
    · rintro rfl
      simp [appliesApplier, made] at counted
    · rintro rfl
      simp [appliesApplier, made] at counted

/-- Runs that are given enough places do the same as runs that nobody counts. -/
theorem taking_spec (host : Host) (fuel room : Nat) :
    RunSpec (.within room) (taking appliesApplier (performWithin appliesApplier host fuel) room)
      (perform host fuel) := by
  induction fuel generalizing room with
  | zero =>
      refine ⟨fun function arguments world holds => ?_, fun forms world opens => ?_⟩
      · refine faultless_taking _ (Nat.lt_of_lt_of_le world.places_pos holds.2) ?_ ?_
        · exact fun _ => faultless_exhausted
        · exact fun _ _ _ => faultless_exhausted
      · refine faultless_taking _ (Nat.zero_lt_of_lt opens.2) ?_ ?_
        · exact fun _ => faultless_exhausted
        · exact fun _ _ _ => faultless_exhausted
  | succ fuel ih =>
      refine ⟨fun function arguments world holds => ?_, fun forms world opens => ?_⟩
      · refine faultless_taking _ (Nat.lt_of_lt_of_le world.places_pos holds.2) ?_ ?_
        · intro _
          exact faultless_applyFunction (ih room) (goes_drive _ host _) fuel function arguments holds
        · -- A nested run takes one place, so the runs inside of it have the others.
          rintro left rfl counted
          exact faultless_counted (ih left) counted holds.1 holds.2
      · refine faultless_taking _ (Nat.zero_lt_of_lt opens.2) ?_ ?_
        · intro free
          cases free
        · rintro left rfl _
          exact faultless_evaluate (ih left) (goes_drive _ host _) fuel forms
            ⟨opens.1, Nat.le_of_lt_succ opens.2⟩

structure Refuses (host : Host) (world : World) : Prop where
  inner : ∀ fuel ref parameters rest code captures arguments,
    (world.store.function ref).body = .compiled parameters rest code captures →
    perform host (fuel + 1) (.apply (.function ref) arguments) world =
      .error (.error (.runtime (.nestingDepth world.config.maxNesting))) world
  apart : ∀ body : Machine Value, inNested body world =
    .error (.error (.runtime (.nestingDepth world.config.maxNesting))) world

theorem refuses_of_deep (host : Host) {world : World}
    (deep : world.config.maxNesting ≤ world.env.nesting) : Refuses host world := by
  have refused := checkNesting_refuses deep
  constructor
  · intro fuel ref parameters rest code captures arguments compiled
    have read : readStore (fun store => store.function ref) world =
        .ok (world.store.function ref) world := rfl
    simp only [perform, serve, applyFunction, bind_apply, read, compiled, refused]
  · intro body
    simp only [inNested, bind_apply, refused]

end Machine

namespace Interpreter

open Machine

def evalTextWithin (free : Store → Request → Bool) (host : Host) (room fuel : Nat) (text : String) :
    Machine Value := do
  performWithin free host fuel room (.evaluate (← readText text))

/-- Callbacks never need more places than the limit on nested runs leaves, unless native functions
apply those that apply functions; what would be nested deeper is refused. -/
theorem evalText_within (host : Host) (fuel : Nat) (text : String) (world : World)
    (ready : world.Ready) :
    evalTextWithin appliesApplier host world.places fuel text world =
        evalText host fuel text world ∧
      (∀ after, evalTextWithin appliesApplier host world.places fuel text world ≠
        .error (.error overflow) after) ∧
      ∀ deep : World, deep.config.maxNesting ≤ deep.env.nesting → Refuses host deep := by
  have faultless : Faultless (evalTextWithin appliesApplier host world.places fuel text)
      (evalText host fuel text) world fun _ after => after.store.Sound := by
    refine Faultless.bind ((faultless_reading text ready).mono ?_)
    rintro values read ⟨later, readReady, reader, env⟩
    have samePlaces : read.places = world.places := by
      rw [World.places, later.config, env, World.places]
    cases fuel with
    | zero => exact faultless_exhausted
    | succ fuel =>
        have evaluated := faultless_evaluate (taking_spec host fuel world.places)
          (goes_drive _ host _) fuel values ⟨readReady, Nat.le_of_eq samePlaces⟩
        exact evaluated.mono fun _ after outcome => outcome.2.1
  obtain ⟨same, outcome⟩ := faultless
  refine ⟨same, fun after refused => ?_, fun deep tooDeep => refuses_of_deep host tooDeep⟩
  rw [refused] at outcome
  cases outcome

/-- A text that maps and evaluates, with the limit on nested runs set to two. -/
theorem evalText_within_nested :
    let text := "(map (fn [x] (eval (list + x x))) [1 2 3])"
    let world := fresh ⟨10000, 2, false, false, false⟩
    world.places = 5 ∧ world.Ready ∧
      evalTextWithin appliesApplier .none world.places 100 text world =
        evalText .none 100 text world :=
  ⟨rfl, fresh_ready _, (evalText_within .none 100 _ _ (fresh_ready _)).1⟩

end Interpreter

namespace Machine

/-! A function that applies itself to itself. -/

def isApply (function : Function) : Bool :=
  match function.body with
  | .native (.standard .apply) (.exactly 2) _ => true
  | _ => false

theorem body_of_isApply {function : Function} (applies : isApply function = true) :
    ∃ builder, function.body = .native (.standard .apply) (.exactly 2) builder := by
  unfold isApply at applies
  split at applies
  next builder made => exact ⟨builder, made⟩
  next => cases applies

@[mk_iff]
structure Spins (ref : FunctionRef) (items : ArrayRef) (world : World) : Prop where
  native : isApply (world.store.function ref) = true
  array : world.store.array items = #[.function ref, .array items]
  quiet : world.config.observing = false

def spin (ref : FunctionRef) (items : ArrayRef) : Request :=
  .apply (.function ref) [.function ref, .array items]

theorem Spins.items {ref : FunctionRef} {items : ArrayRef} {world : World}
    (spins : Spins ref items world) :
    ask (fun store => store.sequenceItems (.array items)) world =
      .ok [.function ref, .array items] world := by
  change ofExcept (world.store.sequenceItems (.array items)) world = _
  rw [Store.sequenceItems, spins.array]
  rfl

theorem Spins.observe {ref : FunctionRef} {items : ArrayRef} {world : World}
    (spins : Spins ref items world) (event : Event) (values : List Value) :
    observe event values world = .ok () world := by
  simp only [Machine.observe, bind_apply, currentConfig_apply, spins.quiet]
  rfl

theorem applyFunction_spins {perform : Perform} {go : Machine Unit} {ref : FunctionRef}
    {items : ArrayRef} {world : World} (spins : Spins ref items world) {stop : Stop} {after : World}
    (stopped : perform (spin ref items) world = .error stop after) :
    applyFunction .none perform go (.function ref) [.function ref, .array items] world =
      .error stop after := by
  have read : readStore (fun store => store.function ref) world =
      .ok (world.store.function ref) world := rfl
  have enough (name : String) :
      ofExcept ((Arity.exactly 2).check name [Value.function ref, .array items].length) world =
        .ok () world := rfl
  obtain ⟨builder, native⟩ := body_of_isApply spins.native
  rw [spin] at stopped
  simp only [applyFunction, bind_apply, read, native, enough, observeCall, spins.observe, callNative,
    Standard.call, List.getD_cons_zero, List.getD_cons_succ, spins.items, stopped]

theorem perform_spins (fuel : Nat) {ref : FunctionRef} {items : ArrayRef} {world : World}
    (spins : Spins ref items world) :
    perform .none fuel (spin ref items) world = .error .exhausted world := by
  induction fuel with
  | zero => rfl
  | succ fuel ih => exact applyFunction_spins spins ih

theorem taking_spins {room fuel : Nat} (enough : room ≤ fuel) {ref : FunctionRef} {items : ArrayRef}
    {world : World} (spins : Spins ref items world) :
    taking (fun _ _ => false) (performWithin (fun _ _ => false) .none fuel) room (spin ref items)
      world = .error (.error overflow) world := by
  induction room generalizing fuel with
  | zero => rfl
  | succ room ih =>
      obtain ⟨left, rfl⟩ := Nat.exists_eq_succ_of_ne_zero (Nat.ne_zero_of_lt enough)
      exact applyFunction_spins spins (ih (Nat.le_of_succ_le_succ enough))

instance {ref : FunctionRef} {items : ArrayRef} {world : World} :
    Decidable (Spins ref items world) :=
  decidable_of_iff' _ (spins_iff ref items world)

@[mk_iff]
structure Poised (symbol : Symbol) (ref : FunctionRef) (items : ArrayRef) (world : World) : Prop where
  next : nextInstr? world.env = some (.call symbol 2)
  plain : symbol.isPath = false
  bound : (world.store.findBinding world.env.scopes.elements world.env.function.captures
    symbol.id).map Prod.fst = some (.function ref)
  data : world.env.data.elements = [.array items, .function ref]
  spins : Spins ref items world
  untraced : world.config.tracing = false

theorem Poised.lookup {symbol : Symbol} {ref : FunctionRef} {items : ArrayRef} {world : World}
    (poised : Poised symbol ref items world) : lookup symbol world = .ok (.function ref) world := by
  obtain ⟨⟨value, scope⟩, found, same⟩ := Option.map_eq_some_iff.mp poised.bound
  have plain : world.store.lookup world.env.scopes.elements world.env.function.captures symbol =
      (.ok value, world.store) := by
    simp [Store.lookup, poised.plain, Store.lookupPlain, found]
  rw [← same, Machine.lookup]
  simp only [bind_apply, currentEnv_apply, tryOnStore, onStore, plain]
  rfl

instance {symbol : Symbol} {ref : FunctionRef} {items : ArrayRef} {world : World} :
    Decidable (Poised symbol ref items world) :=
  decidable_of_iff' _ (poised_iff symbol ref items world)

theorem Poised.step {symbol : Symbol} {ref : FunctionRef} {items : ArrayRef} {world : World}
    (poised : Poised symbol ref items world) {perform : Perform} {stop : Stop} {after : World}
    (stopped : perform (spin ref items) (dropped world 2) = .error stop after) :
    step .none perform world = .error stop after := by
  have spins : Spins ref items (dropped world 2) :=
    ⟨poised.spins.native, poised.spins.array, poised.spins.quiet⟩
  have popped : popMany 2 world = .ok [.function ref, .array items] (dropped world 2) := by
    rw [popMany_apply (by simp [poised.data]), poised.data]
    rfl
  have read : readStore (fun store => store.function ref) (dropped world 2) =
      .ok (world.store.function ref) (dropped world 2) := rfl
  have enough (name : String) :
      ofExcept ((Arity.exactly 2).check name [Value.function ref, .array items].length)
        (dropped world 2) = .ok () (dropped world 2) := rfl
  obtain ⟨builder, native⟩ := body_of_isApply poised.spins.native
  rw [spin] at stopped
  simp only [Machine.step, bind_apply, currentEnv_apply, poised.next, logInstr, currentConfig_apply,
    poised.untraced, Bool.false_eq_true, ↓reduceIte, pure_apply, execute, poised.lookup, popped, read,
    callFunction, observeCall, spins.observe, native, enough, callNative, Standard.call,
    List.getD_cons_zero, List.getD_cons_succ, spins.items, stopped]

theorem Poised.run {symbol : Symbol} {ref : FunctionRef} {items : ArrayRef} {count : Nat}
    {world between : World} (steps : stepsAlone count world = some between)
    (poised : Poised symbol ref items between) (fuel : Nat) {perform : Perform} {stop : Stop}
    {after : World} (stopped : perform (spin ref items) (dropped between 2) = .error stop after)
    (other : stop ≠ .error .stackUnderflow) :
    runProgram (drive .none perform (fuel + 1 + count)) world = .error stop after := by
  have stepped := poised.step stopped
  rw [runProgram, bind_apply, drive_alone perform (fuel + 1) steps]
  simp only [drive, stepped]

end Machine

namespace Interpreter

open Machine

def spinning : World :=
  match loadText .none 40 "(def a [apply 0]) (aset a 1 a) (apply apply a)" (fresh default) with
  | .ok _ world => world
  | .error _ world => world

theorem spinning_poised : ∃ between, stepsAlone 13 spinning = some between ∧
    Poised ⟨"apply", 36, false⟩ 36 1 between := by
  have checked : (stepsAlone 13 spinning).any
      (fun between => decide (Poised ⟨"apply", 36, false⟩ 36 1 between)) = true := by
    decide +kernel
  obtain ⟨between, steps, poised⟩ := (Option.any_eq_true _ _).mp checked
  exact ⟨between, steps, of_decide_eq_true poised⟩

/-- No room is enough for the callbacks of a program that lets a native function apply itself. -/
theorem callbacks_unbounded : ¬ ∃ room, ∀ fuel,
    performWithin (fun _ _ => false) .none fuel room .run spinning =
      perform .none fuel .run spinning := by
  rintro ⟨room, same⟩
  obtain ⟨between, steps, poised⟩ := spinning_poised
  have spins : Spins 36 1 (dropped between 2) :=
    ⟨poised.spins.native, poised.spins.array, poised.spins.quiet⟩
  have counted : performWithin (fun _ _ => false) .none (room + 1 + 13 + 1) room .run spinning =
      .error (.error overflow) (dropped between 2) :=
    poised.run steps room (taking_spins (by omega) spins) (by simp [overflow])
  have free : perform .none (room + 1 + 13 + 1) .run spinning =
      .error .exhausted (dropped between 2) :=
    poised.run steps room (perform_spins _ spins) (by simp)
  rw [same, free] at counted
  cases counted

end Interpreter

end StackLisp
