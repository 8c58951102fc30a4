import StackLisp.Proofs.Machine.Settling

/-!
What a computation asks for. Requests that break a law can be refused, and a computation that is no
different for it makes none of these. That the results of all requests are good is found out by one run
in which all others count as a lack of fuel, if it does not run out.
-/

namespace StackLisp.Machine

open Classical in
noncomputable def lawful (law : Request → World → Prop) (refusal : Error) (perform : Perform) :
    Perform := fun request world =>
  if law request world then perform request world else .error (.error refusal) world

/-- A computation asks for nothing but what obeys the law, if it makes no difference to it that all else
is refused, with whatever error. -/
def AsksOnly {α : Type} (law : Request → World → Prop) (body : Perform → Machine α) (perform : Perform)
    (world : World) : Prop :=
  ∀ refusal, body (lawful law refusal perform) world = body perform world

theorem lawful_pos {law : Request → World → Prop} {request : Request} {world : World}
    (obeys : law request world) (refusal : Error) (perform : Perform) :
    lawful law refusal perform request world = perform request world := if_pos obeys

theorem lawful_neg {law : Request → World → Prop} {request : Request} {world : World}
    (breaks : ¬ law request world) (refusal : Error) (perform : Perform) :
    lawful law refusal perform request world = .error (.error refusal) world := if_neg breaks

theorem endsBy_lawful {good : World → Value → World → Prop} (performs : Nat → Perform)
    (refusal : Error) (request : Request) (world : World) :
    EndsBy good (fun fuel => lawful (EndsBy good performs) refusal (performs fuel)) request world := by
  by_cases obeys : EndsBy good performs request world
  · obtain ⟨bound, outcome, ends, reached⟩ := obeys
    refine ⟨bound, outcome, ends, fun fuel depth enough enough' => ?_⟩
    rw [← reached fuel depth enough enough']
    exact lawful_pos ⟨bound, outcome, ends, reached⟩ _ _
  · exact ⟨0, .error (.error refusal) world, trivial, fun _ _ _ _ => lawful_neg obeys _ _⟩

/-- What is requested, with results that are found not to be good taken for a lack of fuel. -/
def trusted (good : World → Value → World → Bool) (perform : Perform) : Perform :=
  fun request world =>
    match perform request world with
    | .ok value after => if good world value after then .ok value after else .error .exhausted world
    | stopped => stopped

section Trusted

variable {good : World → Value → World → Bool} {better : World → Value → World → Prop} {host : Host}
  {writes : Store.Writes} {hears : Prop}

theorem trusted_cases (good : World → Value → World → Bool) (perform : Perform) (request : Request)
    (world : World) :
    (∃ after, trusted good perform request world = .error .exhausted after) ∨
      trusted good perform request world = perform request world ∧
        Ends (fun value after => good world value after = true) (perform request world) := by
  unfold trusted
  cases perform request world with
  | ok value after =>
      dsimp only
      split
      next isGood => exact .inr ⟨rfl, isGood⟩
      next => exact .inl ⟨world, rfl⟩
  | error stop after =>
      cases stop with
      | exhausted => exact .inl ⟨after, rfl⟩
      | error cause => exact .inr ⟨rfl, trivial⟩

theorem foretells_trusted (good : World → Value → World → Bool) (hosted : host.Acts writes hears)
    {fuel more : Nat} (le : fuel ≤ more) (request : Request) :
    Foretells (trusted good (perform host fuel) request) (perform host more request) := by
  intro world
  rcases trusted_cases good (perform host fuel) request world with out | ⟨same, -⟩
  · exact .inl out
  · rw [same]
    exact foretells_perform hosted le request world

theorem foretells_lawful (hosted : host.Acts writes hears)
    (implies : ∀ world value after, good world value after = true → better world value after)
    {fuel more : Nat} (le : fuel ≤ more) (refusal : Error) (request : Request) :
    Foretells (trusted good (perform host fuel) request)
      (lawful (EndsBy better (perform host)) refusal (perform host more) request) := by
  intro world
  rcases trusted_cases good (perform host fuel) request world with out | ⟨same, ends⟩
  · exact .inl out
  · have obeys : EndsBy better (perform host) request world :=
      settles_of_foretold fuel 0 (fun _ _ le _ => foretells_perform hosted le request)
        (ends.mono (implies world))
    rw [same, lawful_pos obeys]
    exact foretells_perform hosted le request world

/-- A reading that comes to its end while all that it asks for ends well asks for nothing else, with
however much more fuel. -/
theorem asksOnly_of_trusted (hosted : host.Acts writes hears)
    (implies : ∀ world value after, good world value after = true → better world value after)
    {fuel room : Nat} {mode : Reading} {context : Context} {value : Value} {world : World}
    (ended : ∀ after, Form.read (trusted good (perform host fuel)) room mode context value world ≠
      .error .exhausted after) {more deeper : Nat} (le : fuel ≤ more) (le' : room ≤ deeper) :
    AsksOnly (EndsBy better (perform host)) (fun perform => Form.read perform deeper mode context value)
      (perform host more) world := by
  intro refusal
  have real := foretells_read (foretells_trusted good hosted le) le' mode context value
  have careful := foretells_read (foretells_lawful hosted implies le refusal) le' mode context value
  exact (careful.of_ended ended).symm.trans (real.of_ended ended)

end Trusted

end StackLisp.Machine
