import StackLisp.Proofs.Machine.Foretold
import StackLisp.Proofs.Machine.Telling
import StackLisp.Proofs.Store.Acyclic

/-!
Computations that end. What a computation comes to may depend on how much fuel there is, for the requests
that it makes and for its own depth; it settles if enough of both always lead to the same outcome, and
that is not a lack of fuel. Steps that leave some arrays as they are settle one after the other.
-/

namespace StackLisp.Machine

abbrev Fueled (α : Type) := Nat → Nat → Machine α

section Settling

variable {α β : Type}

/-- The outcome is an error of the program or a good result. -/
def Ends (good : α → World → Prop) : EStateM.Result Stop World α → Prop
  | .ok result after => good result after
  | .error (.error _) _ => True
  | .error .exhausted _ => False

/-- From some fuel on, the computation comes to one outcome, which it ends with. -/
def Settles (body : Fueled α) (world : World) (good : α → World → Prop) : Prop :=
  ∃ bound outcome, Ends good outcome ∧
    ∀ fuel depth, bound ≤ fuel → bound ≤ depth → body fuel depth world = outcome

abbrev EndsBy (good : World → Value → World → Prop) (performs : Nat → Perform) (request : Request)
    (world : World) : Prop :=
  Settles (fun fuel _ => performs fuel request) world (good world)

/-- The computation settles wherever the kept arrays are what they are in this store, and leaves them
so. -/
def Steady (kept : ArrayRef → Prop) (store : Store) (body : Fueled α) : Prop :=
  ∀ world, store.Rests kept world.store →
    Settles body world fun _ after => world.store.Rests kept after.store

theorem Ends.mono {good better : α → World → Prop}
    (implies : ∀ result after, good result after → better result after)
    {outcome : EStateM.Result Stop World α} (ends : Ends good outcome) : Ends better outcome := by
  cases outcome with
  | ok result after => exact implies result after ends
  | error stop after =>
      cases stop with
      | error cause => trivial
      | exhausted => exact ends

theorem Ends.elim_error {good : α → World → Prop} {better : β → World → Prop} {stop : Stop}
    {after later : World} (ends : Ends good (.error stop after)) : Ends better (.error stop later) := by
  cases stop with
  | error cause => trivial
  | exhausted => exact ends

theorem Settles.mono {body : Fueled α} {world : World} {good better : α → World → Prop}
    (settles : Settles body world good)
    (implies : ∀ result after, good result after → better result after) :
    Settles body world better := by
  obtain ⟨bound, outcome, ends, reached⟩ := settles
  exact ⟨bound, outcome, ends.mono implies, reached⟩

theorem settles_of_run {body : Machine α} {world : World} {good : α → World → Prop}
    {outcome : EStateM.Result Stop World α} (ran : body world = outcome) (ends : Ends good outcome) :
    Settles (fun _ _ => body) world good := ⟨0, outcome, ends, fun _ _ _ _ => ran⟩

theorem Settles.bind {body : Fueled α} {later : Nat → Nat → α → Machine β} {world : World}
    {good : α → World → Prop} {better : β → World → Prop} (first : Settles body world good)
    (second : ∀ result after, good result after →
      Settles (fun fuel depth => later fuel depth result) after better) :
    Settles (fun fuel depth => body fuel depth >>= later fuel depth) world better := by
  obtain ⟨bound, outcome, ends, reached⟩ := first
  cases outcome with
  | ok result after =>
      obtain ⟨bound', outcome, ends', reached'⟩ := second result after ends
      refine ⟨max bound bound', outcome, ends', fun fuel depth enough enough' => ?_⟩
      dsimp only
      rw [bind_apply, reached fuel depth (by omega) (by omega)]
      exact reached' fuel depth (by omega) (by omega)
  | error stop after =>
      refine ⟨bound, .error stop after, ends.elim_error, fun fuel depth enough enough' => ?_⟩
      dsimp only
      rw [bind_apply, reached fuel depth enough enough']

theorem settles_of_foretold {body : Fueled α} {world : World} {good : α → World → Prop}
    (fuel depth : Nat)
    (foretold : ∀ more deeper, fuel ≤ more → depth ≤ deeper →
      Foretells (body fuel depth) (body more deeper))
    (ends : Ends good (body fuel depth world)) : Settles body world good := by
  refine ⟨max fuel depth, body fuel depth world, ends, fun more deeper enough enough' => ?_⟩
  rcases foretold more deeper (by omega) (by omega) world with ⟨after, out⟩ | same
  · rw [out] at ends
    exact absurd ends id
  · exact same

theorem Settles.deeper {body inner : Fueled α} {world : World} {good : α → World → Prop}
    (step : ∀ fuel depth, body fuel (depth + 1) = inner fuel depth)
    (settles : Settles inner world good) : Settles body world good := by
  obtain ⟨bound, outcome, ends, reached⟩ := settles
  refine ⟨bound + 1, outcome, ends, fun fuel depth enough enough' => ?_⟩
  obtain ⟨depth, rfl⟩ : ∃ left, depth = left + 1 := ⟨depth - 1, by omega⟩
  rw [step]
  exact reached fuel depth (by omega) (by omega)

theorem settles_inNested {body : Fueled α} {world : World} {good : α → Store → Prop}
    (settles : ∀ inner : World, inner.store = world.store →
      Settles body inner fun result after => good result after.store) :
    Settles (fun fuel depth => inNested (body fuel depth)) world
      fun result after => good result after.store := by
  rcases inNested_cases world with ⟨cause, refused⟩ | ⟨_, journal, _, runs⟩
  · exact ⟨0, .error (.error cause) world, trivial, fun fuel depth _ _ => refused _⟩
  · obtain ⟨bound, outcome, ends, reached⟩ := settles
      ⟨world.config, world.store, { Env.fresh with nesting := world.env.nesting + 1 }, journal⟩ rfl
    cases outcome with
    | ok result after =>
        refine ⟨bound, .ok result { after with env := world.env }, ends,
          fun fuel depth enough enough' => ?_⟩
        dsimp only
        rw [runs]
        exact inEnv_ok (reached fuel depth enough enough')
    | error stop after =>
        refine ⟨bound, .error stop { after with env := world.env }, ends.elim_error,
          fun fuel depth enough enough' => ?_⟩
        dsimp only
        rw [runs]
        exact inEnv_error (reached fuel depth enough enough')

end Settling

/-! Steps that leave the kept arrays as they are. -/

section Steady

variable {α β : Type} {kept : ArrayRef → Prop} {store : Store}

theorem Steady.later {after : Store} (rests : store.Rests kept after) {body : Fueled α}
    (steady : Steady kept store body) : Steady kept after body :=
  fun world since => steady world (rests.trans since)

theorem Steady.deeper {body inner : Fueled α}
    (step : ∀ fuel depth, body fuel (depth + 1) = inner fuel depth) (steady : Steady kept store inner) :
    Steady kept store body := fun world since => (steady world since).deeper step

theorem Steady.bind {body : Fueled α} {later : Nat → Nat → α → Machine β}
    (first : Steady kept store body)
    (second : ∀ result, Steady kept store fun fuel depth => later fuel depth result) :
    Steady kept store fun fuel depth => body fuel depth >>= later fuel depth := by
  intro world since
  refine (first world since).bind fun result after rests => ?_
  exact (second result after (since.trans rests)).mono fun _ _ => rests.trans

theorem steady_pure (result : α) : Steady kept store fun _ _ => pure result :=
  fun world _ => settles_of_run (pure_apply result world) (.refl _)

theorem steady_fail (cause : Error) : Steady kept store fun _ _ => (fail cause : Machine α) := by
  intro world _
  have failed : (fail cause : Machine α) world = .error (.error cause) world := rfl
  exact settles_of_run failed trivial

theorem steady_stopped (cause : Error) {later : Nat → Nat → α → Machine β} :
    Steady kept store fun fuel depth => fail cause >>= later fuel depth := by
  intro world _
  refine ⟨0, .error (.error cause) world, trivial, fun _ _ _ _ => rfl⟩

theorem steady_read {read : Store → α} {later : Nat → Nat → α → Machine β}
    (second : ∀ after, store.Rests kept after →
      Steady kept after fun fuel depth => later fuel depth (read after)) :
    Steady kept store fun fuel depth => readStore read >>= later fuel depth := by
  intro world since
  have first : Settles (fun _ _ => readStore read) world fun result after =>
      result = read world.store ∧ after = world :=
    settles_of_run (readStore_apply read world) ⟨rfl, rfl⟩
  refine first.bind ?_
  rintro _ after ⟨rfl, rfl⟩
  exact second after.store since after (.refl _)

theorem steady_items {ref : ArrayRef} (isKept : kept ref) (made : ref < store.arrays.size)
    {later : Nat → Nat → List Value → Machine β}
    (second : Steady kept store fun fuel depth => later fuel depth (store.array ref).toList) :
    Steady kept store fun fuel depth =>
      readStore (fun store => (store.array ref).toList) >>= later fuel depth := by
  refine steady_read fun after rests => ?_
  rw [(rests ref isKept made).2]
  exact second.later rests

theorem steady_change {change : Store → α × Store} {later : Nat → Nat → α → Machine β}
    (aside : ∀ store, (change store).2.arrays = store.arrays)
    (second : ∀ before, store.Rests kept before →
      Steady kept (change before).2 fun fuel depth => later fuel depth (change before).1) :
    Steady kept store fun fuel depth => onStore change >>= later fuel depth := by
  intro world since
  have first : Settles (fun _ _ => onStore change) world fun result after =>
      result = (change world.store).1 ∧ after.store = (change world.store).2 :=
    settles_of_run rfl ⟨rfl, rfl⟩
  refine first.bind ?_
  rintro _ after ⟨rfl, same⟩
  have rests : world.store.Rests kept after.store := by
    rw [same]
    exact Store.rests_of_arrays (aside _)
  refine (second world.store since after ?_).mono fun _ _ => rests.trans
  rw [same]
  exact .refl _

theorem steady_onStore {change : Store → α × Store}
    (aside : ∀ store, (change store).2.arrays = store.arrays) :
    Steady kept store fun _ _ => onStore change := by
  have steady : Steady kept store fun _ _ => onStore change >>= pure :=
    steady_change aside fun _ _ => steady_pure _
  simpa only [bind_pure] using steady

theorem steady_ofExcept (outcome : Except Error α) : Steady kept store fun _ _ => ofExcept outcome := by
  cases outcome with
  | ok result => exact steady_pure result
  | error cause => exact steady_fail cause

theorem steady_ask (question : Store → Except Error α) :
    Steady kept store fun _ _ => ask question :=
  steady_read fun _ _ => steady_ofExcept _

theorem steady_intern (name : String) : Steady kept store fun _ _ => intern name :=
  steady_onStore fun _ => rfl

theorem steady_log (level : Level) (message : Unit → String) :
    Steady kept store fun _ _ => log level message := by
  intro world _
  obtain ⟨journal, logged⟩ := log_apply level message world
  exact settles_of_run logged (Store.Rests.refl world.store)

theorem steady_mapM {step : Nat → Nat → α → Machine β} {items : List α}
    (each : ∀ item ∈ items, Steady kept store fun fuel depth => step fuel depth item) :
    Steady kept store fun fuel depth => items.mapM (step fuel depth) := by
  induction items with
  | nil => exact steady_pure []
  | cons first later ih =>
      simp only [List.mapM_cons]
      exact (each first List.mem_cons_self).bind fun _ =>
        (ih fun item member => each item (List.mem_cons_of_mem _ member)).bind fun _ => steady_pure _

end Steady

end StackLisp.Machine
