import StackLisp.Form.Reading
import StackLisp.Machine.Step

/-!
Runs: steps until the code ends. A run may be started inside of another one, by a native function
that applies a function or evaluates a form; such requests are performed with less fuel than the
run that makes them, which bounds both how long a run goes on and how deep runs are nested.
-/

namespace StackLisp.Machine

section Runs

variable (host : Host) (perform : Perform)

/-- Steps until the code ends. A stack that is found empty outside of all calls of the run ends it
too. -/
def drive : Nat → Machine Unit
  | 0 => exhausted
  | fuel + 1 => fun world =>
    match step host perform world with
    | .ok true world => drive fuel world
    | .ok false world => .ok () world
    | .error (.error .stackUnderflow) world =>
      if world.env.calls.size ≤ world.env.base then
        log .debug (fun _ => "stack underflow at top level; stopping") world
      else .error (.error .stackUnderflow) world
    | .error stop world => .error stop world

/-- Runs the loaded program by `go`. Its value is what it leaves on top of the stack. -/
def runProgram (go : Machine Unit) : Machine Value := do
  go
  onEnv fun env =>
    match env.data.pop? with
    | some (value, data) => (value, { env with data })
    | none => (.nil, env)

/-- Code that calls a function with arguments that are evaluated already. -/
def applyCode (function : Value) (arguments : List Value) : Code :=
  .push function :: arguments.map .push ++ [.dispatch arguments.length]

/-- A run on the stacks of the one under way, which goes on with its own function behind it,
whatever comes of the inner run. -/
def inside {α : Type} (function : Function) (body : Machine α) : Machine α := fun world =>
  match world with
  | ⟨config, store, env, journal⟩ =>
    let inner := { env with
      function
      pc := some 0
      base := env.calls.size
      nesting := env.nesting + 1 }
    let resume (after : World) : World :=
      { after with env := { after.env with
          function := env.function
          pc := env.pc
          base := env.base
          nesting := env.nesting } }
    match body ⟨config, store, inner, journal⟩ with
    | .ok result after => .ok result (resume after)
    | .error stop after => .error stop (resume after)

/-- Applies a function: a native one at once, a compiled one by a run of its own, which is `go`. -/
def applyFunction (go : Machine Unit) (function : Value) (arguments : List Value) : Machine Value := do
  match function with
  | .function ref =>
    let called ← readStore fun store => store.function ref
    match called.body with
    | .native key arity _ =>
      ofExcept (arity.check called.name arguments.length)
      observeCall called.name arguments
      let result ← callNative host perform called.name key arguments
      observeReturn called.name result
      return result
    | .compiled _ _ _ _ =>
      checkNesting
      let stub := Function.program "__apply" (applyCode function arguments).toArray
      inside stub go
      pop
  | other => do fail (.type (.notApplicable (← readStore fun store => store.kindOf other)))

def loadProgram (fuel : Nat) (values : List Value) : Machine Unit := do
  let code := (Form.programCode (← Form.readProgram perform fuel values)).toArray
  log .debug fun _ =>
    s!"loaded {decimalText values.length} forms as {decimalText code.size} instructions"
  modifyEnv fun env => { env with function := .program "__main" code, pc := some 0 }

/-- Does what is requested, running code by `go` and leaving requests that this leads to, to
`perform`. -/
def serve (fuel : Nat) (go : Machine Unit) : Request → Machine Value
  | .apply function arguments => applyFunction host perform go function arguments
  | .load forms => do
    loadProgram perform fuel forms
    return .nil
  | .run => runProgram go
  | .evaluate forms => do
    loadProgram perform fuel forms
    runProgram go

end Runs

def perform (host : Host) : Nat → Request → Machine Value
  | 0, _ => exhausted
  | fuel + 1, request =>
    serve host (perform host fuel) fuel (drive host (perform host fuel) fuel) request

end StackLisp.Machine
