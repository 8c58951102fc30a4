import StackLisp.Proofs.Form.Alike
import StackLisp.Proofs.Machine.Guarded

/-!
What a guarded run tells of the real one. An alarm that nothing catches leaves no doubt: a run that
comes to its end without it is the run that the machine makes. A lack of fuel is such an alarm, so more
fuel makes no difference to a run that comes to its end.
-/

namespace StackLisp.Machine

/-- Unless the first computation runs out of fuel, the second one does the same. -/
def Foretells {α : Type} (first second : Machine α) : Prop :=
  ∀ world, (∃ after, first world = .error .exhausted after) ∨ second world = first world

section Foretells

variable {α β : Type}

theorem Foretells.refl (body : Machine α) : Foretells body body := fun _ => .inr rfl

theorem foretells_exhausted (second : Machine α) : Foretells exhausted second :=
  fun world => .inl ⟨world, rfl⟩

theorem Foretells.of_ended {first second : Machine α} (foretells : Foretells first second)
    {world : World} (ended : ∀ after, first world ≠ .error .exhausted after) :
    first world = second world := by
  rcases foretells world with ⟨after, out⟩ | same
  · exact absurd out (ended after)
  · exact same.symm

theorem Foretells.bind {first second : Machine α} {later others : α → Machine β}
    (body : Foretells first second) (rest : ∀ value, Foretells (later value) (others value)) :
    Foretells (first >>= later) (second >>= others) := by
  intro world
  rw [bind_apply, bind_apply]
  rcases body world with ⟨after, out⟩ | same
  · exact .inl ⟨after, by rw [out]⟩
  · rw [same]
    cases first world with
    | ok value after => exact rest value after
    | error stop after => exact .inr rfl

def Congruence.foretelling : Congruence where
  holds := Foretells
  refl := Foretells.refl
  bind := Foretells.bind

theorem Foretells.andThen {first : Machine α} {later others : α → Machine β}
    (rest : ∀ value, Foretells (later value) (others value)) :
    Foretells (first >>= later) (first >>= others) := (Foretells.refl first).bind rest

theorem Foretells.attempt {first second : Machine α} (body : Foretells first second) :
    Foretells (attempt first) (attempt second) := by
  intro world
  rcases body world with ⟨after, out⟩ | same
  · exact .inl ⟨after, by rw [Machine.attempt, out]⟩
  · exact .inr (by rw [Machine.attempt, Machine.attempt, same])

theorem Foretells.inEnv {first second : Machine α} (body : Foretells first second) (env : Env) :
    Foretells (inEnv env first) (inEnv env second) := by
  intro world
  rw [inEnv_apply, inEnv_apply]
  rcases body { world with env } with ⟨after, out⟩ | same
  · exact .inl ⟨_, by rw [out]⟩
  · exact .inr (by rw [same])

theorem Foretells.inNested {first second : Machine α} (body : Foretells first second) :
    Foretells (inNested first) (inNested second) :=
  .andThen fun _ => .andThen fun _ => .andThen fun _ => body.inEnv _

theorem Foretells.inside {first second : Machine α} (body : Foretells first second)
    (function : Function) : Foretells (inside function first) (inside function second) := by
  intro world
  obtain ⟨config, store, env, journal⟩ := world
  simp only [Machine.inside]
  rcases body ⟨config, store, { env with
      function
      pc := some 0
      base := env.calls.size
      nesting := env.nesting + 1 }, journal⟩ with ⟨after, out⟩ | same
  · exact .inl ⟨_, by rw [out]⟩
  · exact .inr (by rw [same])

theorem Acts.foretells {writes : Store.Writes} {hears : Prop} {body : Perform → Machine α}
    (acts : Acts writes hears body) {perform other : Perform}
    (serves : ∀ request, Foretells (perform request) (other request)) :
    Foretells (body perform) (body other) := by
  induction acts with
  | result | failure | outOfFuel | look | change | note | cleared | exchange | stopped =>
      exact .refl _
  | andThen _ _ ihFirst ihLater => exact ihFirst.bind ihLater
  | attempted _ ih => exact ih.attempt
  | request asked => exact serves asked
  | nested _ ih => exact ih.inNested
  | apart _ ih => exact ih.inEnv _
  | copied _ ih => exact .andThen fun env => ih.inEnv env.copy

end Foretells

section Runs

variable {writes : Store.Writes} {hears : Prop} {host : Host} {perform other : Perform}

theorem foretells_callNative (hosted : host.Acts writes hears)
    (serves : ∀ request, Foretells (perform request) (other request)) (name : String)
    (key : NativeKey) (arguments : List Value) :
    Foretells (callNative host perform name key arguments)
      (callNative host other name key arguments) := by
  cases key with
  | standard native =>
      have acts : Acts writes hears _ := native.acts_call arguments
      exact acts.foretells serves
  | hosted key => exact ((hosted key name arguments).foretells serves).bind fun _ => .refl _

theorem foretells_callFunction (hosted : host.Acts writes hears)
    (serves : ∀ request, Foretells (perform request) (other request)) (function : Function)
    (arguments : List Value) :
    Foretells (callFunction host perform function arguments)
      (callFunction host other function arguments) := by
  refine .andThen fun _ => ?_
  cases function.body with
  | native key arity builder =>
      exact .andThen fun _ => (foretells_callNative hosted serves _ _ _).bind fun _ => .refl _
  | compiled => exact .refl _

theorem foretells_execute (hosted : host.Acts writes hears)
    (serves : ∀ request, Foretells (perform request) (other request)) (instr : Instr) :
    Foretells (execute host perform instr) (execute host other instr) := by
  cases instr with
  | call symbol count =>
      refine .andThen fun callee => ?_
      cases callee with
      | function ref =>
          exact .andThen fun _ => .andThen fun _ => foretells_callFunction hosted serves _ _
      | _ => exact .refl _
  | dispatch count =>
      refine .andThen fun _ => .andThen fun callee => ?_
      cases callee with
      | function ref => exact .andThen fun _ => foretells_callFunction hosted serves _ _
      | _ => exact .refl _
  | _ => exact .refl _

theorem foretells_step (hosted : host.Acts writes hears)
    (serves : ∀ request, Foretells (perform request) (other request)) :
    Foretells (step host perform) (step host other) := by
  refine .andThen fun env => ?_
  cases nextInstr? env with
  | none => exact .refl _
  | some instr => exact .andThen fun _ => (foretells_execute hosted serves instr).bind fun _ => .refl _

theorem foretells_driveBy {first second : Machine Bool} (steps : Foretells first second)
    {fuel more : Nat} (le : fuel ≤ more) : Foretells (driveBy first fuel) (driveBy second more) := by
  induction fuel generalizing more with
  | zero => exact foretells_exhausted _
  | succ fuel ih =>
      obtain ⟨more, rfl⟩ := Nat.exists_eq_succ_of_ne_zero (Nat.ne_zero_of_lt le)
      intro world
      simp only [driveBy]
      rcases steps world with ⟨after, out⟩ | same
      · exact .inl ⟨after, by rw [out]⟩
      · rw [same]
        cases first world with
        | ok more after =>
            cases more with
            | true => exact ih (Nat.le_of_succ_le_succ le) after
            | false => exact .inr rfl
        | error stop after =>
            cases stop with
            | exhausted => exact .inr rfl
            | error cause => cases cause <;> exact .inr rfl

theorem foretells_applyFunction (hosted : host.Acts writes hears)
    (serves : ∀ request, Foretells (perform request) (other request)) {go others : Machine Unit}
    (goes : Foretells go others) (function : Value) (arguments : List Value) :
    Foretells (applyFunction host perform go function arguments)
      (applyFunction host other others function arguments) := by
  cases function with
  | function ref =>
      refine .andThen fun called => ?_
      cases called.body with
      | native key arity builder =>
          exact .andThen fun _ => .andThen fun _ =>
            (foretells_callNative hosted serves _ _ _).bind fun _ => .refl _
      | compiled => exact .andThen fun _ => (goes.inside _).bind fun _ => .refl _
  | _ => exact .refl _

theorem foretells_read (serves : ∀ request, Foretells (perform request) (other request))
    {room more : Nat} (le : room ≤ more) (mode : Reading) (context : Context) (value : Value) :
    Foretells (Form.read perform room mode context value) (Form.read other more mode context value) := by
  induction room generalizing more mode context value with
  | zero => exact foretells_exhausted _
  | succ room ih =>
      obtain ⟨more, rfl⟩ := Nat.exists_eq_succ_of_ne_zero (Nat.ne_zero_of_lt le)
      have parts (expansions : Nat) : Form.AlikeInside .foretelling expansions
          (Form.read perform room) (Form.read other more) :=
        fun mode context value _ => ih (Nat.le_of_succ_le_succ le) mode context value
      cases mode with
      | form =>
          exact Form.alike_readForm (parts _) (fun _ => parts _)
            (fun _ _ => (serves _).inNested) value
      | template => exact Form.alike_readTemplateOf (parts _) value

theorem foretells_loadProgram (serves : ∀ request, Foretells (perform request) (other request))
    {fuel more : Nat} (le : fuel ≤ more) (values : List Value) :
    Foretells (loadProgram perform fuel values) (loadProgram other more values) := by
  have parts : Form.AlikeInside .foretelling Context.start.expansions
      (Form.read perform fuel) (Form.read other more) :=
    fun mode context value _ => foretells_read serves le mode context value
  have read : Foretells (Form.readProgram perform fuel values) (Form.readProgram other more values) :=
    Form.alike_readAll parts values
  exact read.bind fun _ => .refl _

theorem foretells_serve (hosted : host.Acts writes hears)
    (serves : ∀ request, Foretells (perform request) (other request)) {go others : Machine Unit}
    (goes : Foretells go others) {fuel more : Nat} (le : fuel ≤ more) (request : Request) :
    Foretells (serve host perform fuel go request) (serve host other more others request) := by
  cases request with
  | apply function arguments => exact foretells_applyFunction hosted serves goes function arguments
  | load forms => exact (foretells_loadProgram serves le forms).bind fun _ => .refl _
  | run => exact goes.bind fun _ => .refl _
  | evaluate forms =>
      exact (foretells_loadProgram serves le forms).bind fun _ => goes.bind fun _ => .refl _

/-- More fuel makes no difference, but where there was a lack of it. -/
theorem foretells_perform (hosted : host.Acts writes hears) {fuel more : Nat} (le : fuel ≤ more)
    (request : Request) :
    Foretells (Machine.perform host fuel request) (Machine.perform host more request) := by
  induction fuel generalizing more request with
  | zero => exact foretells_exhausted _
  | succ fuel ih =>
      obtain ⟨more, rfl⟩ := Nat.exists_eq_succ_of_ne_zero (Nat.ne_zero_of_lt le)
      have le := Nat.le_of_succ_le_succ le
      have goes : Foretells (drive host (Machine.perform host fuel) fuel)
          (drive host (Machine.perform host more) more) := by
        rw [drive_eq, drive_eq]
        exact foretells_driveBy (foretells_step hosted fun request => ih le request) le
      exact foretells_serve hosted (fun request => ih le request) goes le request

theorem foretells_guardedPerform (hosted : host.Acts writes hears) (law : World → Prop)
    [DecidablePred law] (fuel : Nat) (request : Request) :
    Foretells (guardedPerform law .exhausted host fuel request) (Machine.perform host fuel request) := by
  rw [perform_eq]
  unfold guardedPerform
  induction fuel generalizing request with
  | zero => exact .refl _
  | succ fuel ih =>
      refine foretells_serve hosted ih (foretells_driveBy (fun world => ?_) le_rfl) le_rfl request
      by_cases held : law world
      · simp only [guarded, if_pos held]
        exact foretells_step hosted ih world
      · exact .inl ⟨world, if_neg held⟩

theorem Acts.unguarded {α : Type} (hosted : host.Acts writes hears) (law : World → Prop)
    [DecidablePred law] {body : Perform → Machine α} (acts : Acts writes hears body) {fuel : Nat}
    {world : World}
    (ended : ∀ after, body (guardedPerform law .exhausted host fuel) world ≠ .error .exhausted after) :
    body (guardedPerform law .exhausted host fuel) world = body (Machine.perform host fuel) world :=
  (acts.foretells (foretells_guardedPerform hosted law fuel)).of_ended ended

end Runs

end StackLisp.Machine
