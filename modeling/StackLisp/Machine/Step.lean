import StackLisp.Code.Listing
import StackLisp.Machine.Arguments
import StackLisp.Native.Standard

/-!
One step of a machine: the execution of one instruction. A call of a compiled function starts it and
leaves the rest to further steps; a call of a native function is done in one step.
-/

namespace StackLisp.Machine

variable (host : Host) (perform : Perform)

/-- Runs a native function. Its panic becomes an error that keeps the calls under way. -/
def callNative (name : String) (key : NativeKey) (arguments : List Value) : Machine Value := do
  match key with
  | .standard native => native.call perform arguments
  | .hosted key =>
    match ← host.call key perform name arguments with
    | .value value => return value
    | .panic message =>
      log .warn fun _ => s!"native `{name}` panicked: {message}"
      fail (.panic name message (← currentEnv).stackTrace)

def bindAll (ref : ScopeRef) : List (Symbol × Value) → Machine Unit
  | [] => return ()
  | (symbol, value) :: later => do
    tryOnStore fun store => store.bind ref symbol value
    bindAll ref later

def boundValues (name : String) (parameters : List Parameter) (rest : Option Symbol)
    (arguments : List Value) : Machine (List (Symbol × Value)) := do
  let bound ← ask fun store => bindArguments store name parameters rest arguments
  match rest with
  | some symbol => return bound.values ++ [(symbol, ← newList bound.surplus)]
  | none => return bound.values

/-- Starts a compiled function: the caller waits behind its call, in a frame. -/
def enter (function : Function) (scope : ScopeRef) : Machine Unit :=
  modifyEnv fun env =>
    { env with
      calls := env.calls.push ⟨env.function, env.pc.getD 0 + 1, env.scopes.size, function.name⟩
      scopes := env.scopes.push scope
      function
      pc := some 0 }

def callFunction (function : Function) (arguments : List Value) : Machine Unit := do
  observeCall function.name arguments
  match function.body with
  | .native key arity _ =>
    ofExcept (arity.check function.name arguments.length)
    let result ← callNative host perform function.name key arguments
    observeReturn function.name result
    push result
    advance
  | .compiled parameters rest _ _ =>
    let limit := (← currentConfig).maxCallDepth
    if limit ≤ (← currentEnv).calls.size then fail (.runtime (.callDepth limit function.name))
    let values ← boundValues function.name parameters rest arguments
    let scope ← onStore fun store => store.newScope (.empty function.name true)
    bindAll scope values
    enter function scope

/-- Goes back to the caller, or ends the run if that is outside of it. -/
def returnToCaller : Machine Unit := do
  let env ← currentEnv
  if env.calls.size ≤ env.base then modifyEnv fun env => { env with pc := none }
  else
    match env.calls.pop? with
    | none => fail .stackUnderflow
    | some (frame, calls) =>
      observeReturn frame.callee (env.data.top?.getD .nil)
      modifyEnv fun env =>
        { env with
          calls
          scopes := env.scopes.truncate frame.scopeDepth
          function := frame.function
          pc := some frame.resume }

def innermostScope (env : Env) : ScopeRef := env.scopes.top?.getD Store.global

def jump (target : Nat) : Machine Unit := modifyEnv fun env => { env with pc := some target }

def execute : Instr → Machine Unit
  | .push value => do
    push value
    advance
  | .pop => do
    modifyEnv fun env => { env with data := env.data.drop 1 }
    advance
  | .dup => do
    match (← currentEnv).data.top? with
    | some value => push value
    | none => fail .stackUnderflow
    advance
  | .get symbol => do
    push (← lookup symbol)
    advance
  | .put symbol => do
    let value ← pop
    let ref := innermostScope (← currentEnv)
    tryOnStore fun store => store.bind ref symbol value
    advance
  | .set symbol => do
    let value ← pop
    let env ← currentEnv
    tryOnStore fun store =>
      store.assign env.scopes.elements env.function.captures symbol value
    advance
  | .call symbol count => do
    match ← lookup symbol with
    | .function ref =>
      let arguments ← popMany count
      callFunction host perform (← readStore fun store => store.function ref) arguments
    | other =>
      let kind ← readStore fun store => store.kindOf other
      fail (.type (.namedNotFunction symbol.name kind))
  | .dispatch count => do
    let arguments ← popMany count
    match ← pop with
    | .function ref =>
      callFunction host perform (← readStore fun store => store.function ref) arguments
    | other =>
      let problem ← readStore fun store => .notCallable (store.kindOf other) (store.text other)
      fail (.type problem)
  | .jump target => jump target
  | .branch direction target => do
    let value ← pop
    if value.isTruthy == direction then jump target else advance
  | .ret => returnToCaller
  | .closure ref => do
    let env ← currentEnv
    let closed ← onStore fun store =>
      let scopes := store.capturable Store.global env.scopes.elements
      store.newFunction ((store.function ref).closeOver scopes env.function)
    push (.function closed)
    advance
  | .openScope => do
    let ref ← onStore fun store => store.newScope (.empty "let" false)
    modifyEnv fun env => { env with scopes := env.scopes.push ref }
    advance
  | .closeScope => do
    if (← currentEnv).scopes.size ≤ 1 then fail (.runtime .scopesExhausted)
    modifyEnv fun env => { env with scopes := env.scopes.drop 1 }
    advance
  | .leave exit => fail (.compile (.exitOutsideLoop exit.name))

def nextInstr? (env : Env) : Option Instr := env.pc.bind fun offset => env.function.code[offset]?

def logInstr (instr : Instr) : Machine Unit := do
  if (← currentConfig).tracing then
    let env ← currentEnv
    let text ← readStore fun store => instr.text store
    log .trace fun _ => s!"{env.function.name} [{offsetText env.pc}] {text}"

/-- Executes the next instruction, and tells whether there was one. -/
def step : Machine Bool := do
  match nextInstr? (← currentEnv) with
  | none => return false
  | some instr =>
    logInstr instr
    execute host perform instr
    return true

end StackLisp.Machine
