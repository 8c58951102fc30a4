import StackLisp.Proofs.Machine.Aligned

/-!
Callbacks. A native function that applies other ones goes on, behind each of them, as if nothing had
run in between; and so does whoever called the native function.
-/

namespace StackLisp

namespace Machine

structure Transparent (body : Machine Value) (world : World) : Prop where
  function : (lastState body world).env.function = world.env.function
  pc : (lastState body world).env.pc = world.env.pc
  base : (lastState body world).env.base = world.env.base
  nesting : (lastState body world).env.nesting = world.env.nesting
  env : ∀ value after, body world = .ok value after → after.env = world.env

/-- Does what is requested as long as a law holds of each application, where it is asked for; also of
those that this leads to. -/
def checkedPerform (law : Machine Value → World → Prop) [∀ body, DecidablePred (law body)]
    (host : Host) : Nat → Request → Machine Value
  | 0, _ => exhausted
  | fuel + 1, request =>
    let body := serve host (checkedPerform law host fuel) fuel
      (drive host (checkedPerform law host fuel) fuel) request
    match request with
    | .apply _ _ => fun world => if law body world then body world else fail .stackUnderflow world
    | _ => body

theorem Transparent.congr {body other : Machine Value} {world : World}
    (transparent : Transparent body world) (same : other world = body world) :
    Transparent other world := by
  have last : lastState other world = lastState body world := by rw [lastState, same, lastState]
  obtain ⟨function, pc, base, nesting, env⟩ := transparent
  rw [← last] at function pc base nesting
  rw [← same] at env
  exact ⟨function, pc, base, nesting, env⟩

theorem transparent_apply (host : Host) (fuel : Nat) (function : Value) (arguments : List Value)
    {world : World} (ready : world.Ready) :
    Transparent (perform host fuel (.apply function arguments)) world := by
  obtain ⟨_, outcome⟩ := (perform_spec .everywhere host fuel).apply function arguments world ready
  have resumes := (serves_perform .everywhere host fuel).apply function arguments world ready
  refine ⟨resumes.function, resumes.pc, resumes.base, resumes.nesting, fun value after ended => ?_⟩
  rw [ended] at outcome
  exact outcome.env

theorem transparent_spec [∀ body, DecidablePred (Transparent body)] (host : Host) (fuel : Nat) :
    RunSpec .everywhere (checkedPerform Transparent host fuel) (perform host fuel) := by
  induction fuel with
  | zero => exact ⟨fun _ _ _ _ => faultless_exhausted, fun _ _ _ => faultless_exhausted⟩
  | succ fuel ih =>
      have goes := goes_drive .everywhere host (checkedPerform Transparent host fuel)
      refine ⟨fun function arguments world ready => ?_, fun forms world ready => ?_⟩
      · have applied := faultless_applyFunction ih goes fuel function arguments ready
        -- Its own check passes because it does what it does unchecked, by the hypothesis for less fuel.
        have transparent := transparent_apply host (fuel + 1) function arguments ready
        exact applied.of_eq (if_pos (transparent.congr applied.1))
      · exact faultless_evaluate ih goes fuel forms ready

end Machine

namespace Interpreter

open Machine

/-- Applying a function is transparent to its caller, and so is every application that this leads to,
in whatever state of whichever run it is asked for. -/
theorem apply_transparent [∀ body, DecidablePred (Transparent body)] (host : Host) (fuel : Nat)
    (function : Value) (arguments : List Value) (world : World) (ready : world.Ready) :
    Transparent (apply host fuel function arguments) world ∧
      Unstopped (checkedPerform Transparent host fuel (.apply function arguments))
        (apply host fuel function arguments) world :=
  ⟨transparent_apply host fuel function arguments ready,
    ((transparent_spec host fuel).apply function arguments world ready).unstopped⟩

def interrupted : World :=
  lastState (evalText .none 20 "((fn [x] (let [y x] z)) 1)") (fresh default)

/-- A native function is applied to a function that fails with a scope open. -/
theorem apply_transparent_failed :
    let callback := apply .none 20 (.function 37) [.function 51, .pair 0 (.int 1) .nil]
    interrupted.Ready ∧ interrupted.env.calls.size = 1 ∧
      (lastState callback interrupted).env.calls.size = 2 ∧ Transparent callback interrupted := by
  have reached : Reached .none default interrupted := .evalText 20 _ .fresh
  have decided (body : Machine Value) : DecidablePred (Transparent body) :=
    fun world => Classical.propDecidable (Transparent body world)
  have ready : interrupted.Ready := reached.grounded.1
  refine ⟨ready, by decide +kernel, by decide +kernel, ?_⟩
  exact (apply_transparent .none 20 (.function 37) [.function 51, .pair 0 (.int 1) .nil] interrupted
    ready).1

end Interpreter

end StackLisp
