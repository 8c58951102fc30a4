import StackLisp.Interpreter
import StackLisp.Proofs.Form.Reading
import StackLisp.Proofs.Machine.Guarded

/-!
Errors that native functions report. To tell what becomes of them, native functions are called in
another way, in which one error is replaced by an alarm as soon as a native function reports it. Nothing
that runs catches the alarm, so it ends the run in which it is given; and a run in which it is not given
is the real one.

Only the error that stands for an empty stack is caught, by the run that it reaches outside of all calls.
-/

namespace StackLisp

namespace Machine

/-! Machines that call native functions in another way. -/

abbrev NativeCall := Perform → (name : String) → NativeKey → List Value → Machine Value

section Through

variable (call : NativeCall) (perform : Perform)

def callFunctionThrough (function : Function) (arguments : List Value) : Machine Unit := do
  observeCall function.name arguments
  match function.body with
  | .native key arity _ =>
    ofExcept (arity.check function.name arguments.length)
    let result ← call perform function.name key arguments
    observeReturn function.name result
    push result
    advance
  | .compiled parameters rest _ _ =>
    let limit := (← currentConfig).maxCallDepth
    if limit ≤ (← currentEnv).calls.size then fail (.runtime (.callDepth limit function.name))
    let values ← boundValues function.name parameters rest arguments
    let scope ← onStore fun store => store.newScope (.empty function.name true)
    bindAll scope values
    enter function scope

def executeThrough : Instr → Machine Unit
  | .call symbol count => do
    match ← lookup symbol with
    | .function ref =>
      let arguments ← popMany count
      callFunctionThrough call perform (← readStore fun store => store.function ref) arguments
    | other =>
      let kind ← readStore fun store => store.kindOf other
      fail (.type (.namedNotFunction symbol.name kind))
  | .dispatch count => do
    let arguments ← popMany count
    match ← pop with
    | .function ref =>
      callFunctionThrough call perform (← readStore fun store => store.function ref) arguments
    | other =>
      let problem ← readStore fun store => .notCallable (store.kindOf other) (store.text other)
      fail (.type problem)
  | instr => execute .none perform instr

def stepThrough : Machine Bool := do
  match nextInstr? (← currentEnv) with
  | none => return false
  | some instr =>
    logInstr instr
    executeThrough call perform instr
    return true

def applyFunctionThrough (go : Machine Unit) (function : Value) (arguments : List Value) :
    Machine Value := do
  match function with
  | .function ref =>
    let called ← readStore fun store => store.function ref
    match called.body with
    | .native key arity _ =>
      ofExcept (arity.check called.name arguments.length)
      observeCall called.name arguments
      let result ← call perform called.name key arguments
      observeReturn called.name result
      return result
    | .compiled _ _ _ _ =>
      checkNesting
      inside (.program "__apply" (applyCode function arguments).toArray) go
      pop
  | _ => applyFunction .none perform go function arguments

def serveThrough (fuel : Nat) (go : Machine Unit) : Request → Machine Value
  | .apply function arguments => applyFunctionThrough call perform go function arguments
  | request => serve .none perform fuel go request

end Through

def performThrough (call : NativeCall) : Nat → Perform
  | 0, _ => exhausted
  | fuel + 1, request =>
    serveThrough call (performThrough call fuel) fuel
      (driveBy (stepThrough call (performThrough call fuel)) fuel) request

section Plain

variable (host : Host) (perform : Perform)

theorem executeThrough_plain (instr : Instr) :
    executeThrough (callNative host) perform instr = execute host perform instr := by
  cases instr <;> rfl

theorem stepThrough_plain : stepThrough (callNative host) perform = step host perform := by
  refine congrArg (currentEnv >>= ·) (funext fun env => ?_)
  cases nextInstr? env with
  | none => rfl
  | some instr =>
      exact congrArg (fun body => logInstr instr >>= fun _ => body >>= fun _ => pure true)
        (executeThrough_plain host perform instr)

theorem applyFunctionThrough_plain (go : Machine Unit) (function : Value) (arguments : List Value) :
    applyFunctionThrough (callNative host) perform go function arguments =
      applyFunction host perform go function arguments := by
  cases function <;> rfl

theorem performThrough_plain (fuel : Nat) (request : Request) :
    performThrough (callNative host) fuel request = Machine.perform host fuel request := by
  rw [perform_eq]
  induction fuel generalizing request with
  | zero => rfl
  | succ fuel ih =>
      have same : performThrough (callNative host) fuel = performBy (step host) host fuel := funext ih
      rw [performThrough, performBy, same, stepThrough_plain]
      cases request with
      | apply function arguments => exact applyFunctionThrough_plain host _ _ function arguments
      | _ => rfl

end Plain

def alarmed (cause : Error) (alarm : Stop) (call : NativeCall) : NativeCall :=
  fun perform name key arguments world =>
    match call perform name key arguments world with
    | .ok result after => .ok result after
    | .error stop after => .error (if stop = .error cause then alarm else stop) after

/-! Computations that pass on the errors of the runs that they ask for. -/

/-- What asks for runs and does not catch what they stop with; of all else that it does, nothing is
said. It may tidy up behind a run that stopped. -/
inductive Forwards : {α : Type} → (Perform → Machine α) → Prop
  | alone {α : Type} (body : Machine α) : Forwards fun _ => body
  | andThen {α β : Type} {body : Perform → Machine α} {later : Perform → α → Machine β} :
    Forwards body → (∀ value, Forwards fun perform => later perform value) →
    Forwards fun perform => body perform >>= later perform
  | request (request : Request) : Forwards fun perform => perform request
  | nested {α : Type} {body : Perform → Machine α} :
    Forwards body → Forwards fun perform => inNested (body perform)
  | apart {α : Type} {body : Perform → Machine α} (env : Env) :
    Forwards body → Forwards fun perform => inEnv env (body perform)
  | tidied {α : Type} {body : Perform → Machine α} (tidy : World → World) :
    Forwards body → Forwards fun perform world =>
      match body perform world with
      | .ok result after => .ok result after
      | .error stop after => .error stop (tidy after)

end Machine

def Host.Forwards (host : Host) : Prop :=
  ∀ key name arguments, Machine.Forwards fun perform => host.call key perform name arguments

namespace Machine

/-! What a run with an alarm tells of the real one. -/

section Warns

variable {α β : Type} {cause : Error} {alarm : Stop}

/-- The first computation does the same as the second one, but where that ends with the error, it may
end with the alarm. -/
def Warns (cause : Error) (alarm : Stop) (first second : Machine α) : Prop :=
  ∀ world, first world = second world ∨
    ∃ after, first world = .error alarm after ∧ second world = .error (.error cause) after

theorem Warns.refl (body : Machine α) : Warns cause alarm body body := fun _ => .inl rfl

theorem Warns.bind {first second : Machine α} {later others : α → Machine β}
    (body : Warns cause alarm first second)
    (rest : ∀ value world after, second world = .ok value after →
      Warns cause alarm (later value) (others value)) :
    Warns cause alarm (first >>= later) (second >>= others) := by
  intro world
  rw [bind_apply, bind_apply]
  rcases body world with same | ⟨after, warned, failed⟩
  · rw [same]
    cases ran : second world with
    | ok value after => exact rest value world after ran after
    | error stop after => exact .inl rfl
  · exact .inr ⟨after, by rw [warned], by rw [failed]⟩

theorem Warns.andThen {first : Machine α} {later others : α → Machine β}
    (rest : ∀ value, Warns cause alarm (later value) (others value)) :
    Warns cause alarm (first >>= later) (first >>= others) :=
  (Warns.refl first).bind fun value _ _ _ => rest value

theorem Warns.before {first second : Machine α} (body : Warns cause alarm first second)
    (later : α → Machine β) : Warns cause alarm (first >>= later) (second >>= later) :=
  body.bind fun _ _ _ _ => .refl _

theorem Warns.inEnv {first second : Machine α} (body : Warns cause alarm first second) (env : Env) :
    Warns cause alarm (inEnv env first) (inEnv env second) := by
  intro world
  rw [inEnv_apply, inEnv_apply]
  rcases body { world with env } with same | ⟨after, warned, failed⟩
  · exact .inl (by rw [same])
  · exact .inr ⟨_, by rw [warned], by rw [failed]⟩

theorem Warns.inNested {first second : Machine α} (body : Warns cause alarm first second) :
    Warns cause alarm (inNested first) (inNested second) :=
  .andThen fun _ => .andThen fun _ => .andThen fun _ => body.inEnv _

theorem Warns.inside {first second : Machine α} (body : Warns cause alarm first second)
    (function : Function) : Warns cause alarm (inside function first) (inside function second) := by
  intro world
  obtain ⟨config, store, env, journal⟩ := world
  simp only [Machine.inside]
  rcases body ⟨config, store, { env with
      function
      pc := some 0
      base := env.calls.size
      nesting := env.nesting + 1 }, journal⟩ with same | ⟨after, warned, failed⟩
  · exact .inl (by rw [same])
  · exact .inr ⟨_, by rw [warned], by rw [failed]⟩

theorem driveBy_passes {step : Machine Bool} {stop : Stop} (passes : stop ≠ .error .stackUnderflow)
    {world after : World} (ran : step world = .error stop after) (fuel : Nat) :
    driveBy step (fuel + 1) world = .error stop after := by
  simp only [driveBy, ran]

theorem Warns.driveBy (passes : cause ≠ .stackUnderflow) (loud : alarm ≠ .error .stackUnderflow)
    {first second : Machine Bool} (steps : Warns cause alarm first second) (fuel : Nat) :
    Warns cause alarm (driveBy first fuel) (driveBy second fuel) := by
  induction fuel with
  | zero => exact .refl _
  | succ fuel ih =>
      intro world
      rcases steps world with same | ⟨after, warned, failed⟩
      · cases ran : second world with
        | ok more after =>
            cases more with
            | true =>
                simp only [Machine.driveBy, same, ran]
                exact ih after
            | false => exact .inl (by simp only [Machine.driveBy, same, ran])
        | error stop after =>
            by_cases empty : stop = .error .stackUnderflow
            · subst empty
              exact .inl (by simp only [Machine.driveBy, same, ran])
            · exact .inl ((driveBy_passes empty (same.trans ran) fuel).trans
                (driveBy_passes empty ran fuel).symm)
      · exact .inr ⟨after, driveBy_passes loud warned fuel,
          driveBy_passes (fun same => passes (Stop.error.inj same)) failed fuel⟩

variable {perform other : Perform}

theorem Forwards.warns {body : Perform → Machine α} (forwards : Forwards body)
    (serves : ∀ request, Warns cause alarm (perform request) (other request)) :
    Warns cause alarm (body perform) (body other) := by
  induction forwards with
  | alone body => exact .refl body
  | andThen _ _ ihFirst ihLater => exact ihFirst.bind fun value _ _ _ => ihLater value
  | request asked => exact serves asked
  | nested _ ih => exact ih.inNested
  | apart env _ ih => exact ih.inEnv env
  | @tidied _ body tidy _ ih =>
      intro world
      rcases ih world with same | ⟨after, warned, failed⟩
      · exact .inl (by dsimp only; rw [same])
      · exact .inr ⟨tidy after, by dsimp only; rw [warned], by dsimp only; rw [failed]⟩

theorem Tame.warns {holds : α → Prop} {body : Perform → Machine α} (tame : Tame holds body)
    (serves : ∀ request, Warns cause alarm (perform request) (other request)) :
    Warns cause alarm (body perform) (body other) := by
  induction tame with
  | result | failure | outOfFuel | look | change | note => exact .refl _
  | andThen first _ ihFirst ihLater =>
      exact ihFirst.bind fun value _ _ ran => ihLater value (first.held ran)
  | apply => exact serves _
  | applyApart | evaluateApart => exact (serves _).inNested

end Warns

section Runs

variable {cause : Error} {alarm : Stop} {host : Host} {perform other : Perform}

theorem warns_alarmed (hosted : host.Forwards)
    (serves : ∀ request, Warns cause alarm (perform request) (other request)) (name : String)
    (key : NativeKey) (arguments : List Value) :
    Warns cause alarm (alarmed cause alarm (callNative host) perform name key arguments)
      (callNative host other name key arguments) := by
  have called : Warns cause alarm (callNative host perform name key arguments)
      (callNative host other name key arguments) := by
    cases key with
    | standard native => exact (native.tame_call arguments).warns serves
    | hosted key => exact ((hosted key name arguments).warns serves).before _
  intro world
  rw [alarmed]
  rcases called world with same | ⟨after, warned, failed⟩
  · rw [same]
    cases ran : callNative host other name key arguments world with
    | ok result after => exact .inl rfl
    | error stop after =>
        by_cases reported : stop = .error cause
        · subst reported
          exact .inr ⟨after, by simp, rfl⟩
        · exact .inl (by simp [reported])
  · refine .inr ⟨after, ?_, failed⟩
    rw [warned]
    by_cases reported : alarm = .error cause
    · simp [reported]
    · simp [reported]

variable (passes : cause ≠ .stackUnderflow) (loud : alarm ≠ .error .stackUnderflow)

theorem warns_callFunction {first second : NativeCall}
    (calls : ∀ name key arguments, Warns cause alarm (first perform name key arguments)
      (second other name key arguments))
    (function : Function) (arguments : List Value) :
    Warns cause alarm (callFunctionThrough first perform function arguments)
      (callFunctionThrough second other function arguments) := by
  refine .andThen fun _ => ?_
  cases function.body with
  | native key arity builder => exact .andThen fun _ => (calls _ _ _).before _
  | compiled => exact .refl _

theorem warns_execute {first second : NativeCall}
    (calls : ∀ name key arguments, Warns cause alarm (first perform name key arguments)
      (second other name key arguments)) (instr : Instr) :
    Warns cause alarm (executeThrough first perform instr) (executeThrough second other instr) := by
  cases instr with
  | call symbol count =>
      refine .andThen fun callee => ?_
      cases callee with
      | function ref => exact .andThen fun _ => .andThen fun _ => warns_callFunction calls _ _
      | _ => exact .refl _
  | dispatch count =>
      refine .andThen fun _ => .andThen fun callee => ?_
      cases callee with
      | function ref => exact .andThen fun _ => warns_callFunction calls _ _
      | _ => exact .refl _
  | _ => exact .refl _

theorem warns_step {first second : NativeCall}
    (calls : ∀ name key arguments, Warns cause alarm (first perform name key arguments)
      (second other name key arguments)) :
    Warns cause alarm (stepThrough first perform) (stepThrough second other) := by
  refine .andThen fun env => ?_
  cases nextInstr? env with
  | none => exact .refl _
  | some instr => exact .andThen fun _ => (warns_execute calls instr).before _

theorem warns_applyFunction {first second : NativeCall}
    (calls : ∀ name key arguments, Warns cause alarm (first perform name key arguments)
      (second other name key arguments)) {go others : Machine Unit}
    (goes : Warns cause alarm go others) (function : Value) (arguments : List Value) :
    Warns cause alarm (applyFunctionThrough first perform go function arguments)
      (applyFunctionThrough second other others function arguments) := by
  cases function with
  | function ref =>
      refine .andThen fun called => ?_
      cases called.body with
      | native key arity builder =>
          exact .andThen fun _ => .andThen fun _ => (calls _ _ _).before _
      | compiled => exact .andThen fun _ => (goes.inside _).before _
  | _ => exact .refl _

theorem warns_loadProgram (serves : ∀ request, Warns cause alarm (perform request) (other request))
    (fuel : Nat) (values : List Value) :
    Warns cause alarm (loadProgram perform fuel values) (loadProgram other fuel values) :=
  ((Form.tame_readProgram fuel values).warns serves).before _

theorem warns_serve {first second : NativeCall}
    (calls : ∀ name key arguments, Warns cause alarm (first perform name key arguments)
      (second other name key arguments))
    (serves : ∀ request, Warns cause alarm (perform request) (other request))
    {go others : Machine Unit} (goes : Warns cause alarm go others) (fuel : Nat) (request : Request) :
    Warns cause alarm (serveThrough first perform fuel go request)
      (serveThrough second other fuel others request) := by
  cases request with
  | apply function arguments => exact warns_applyFunction calls goes function arguments
  | load forms => exact (warns_loadProgram serves fuel forms).before _
  | run => exact goes.before _
  | evaluate forms => exact (warns_loadProgram serves fuel forms).bind fun _ _ _ _ => goes.before _

include passes loud in
/-- A run with the alarm is the real one, or the alarm is given where the real run ends with the
error. -/
theorem warns_perform (hosted : host.Forwards) (fuel : Nat) (request : Request) :
    Warns cause alarm (performThrough (alarmed cause alarm (callNative host)) fuel request)
      (Machine.perform host fuel request) := by
  rw [← performThrough_plain]
  induction fuel generalizing request with
  | zero => exact .refl _
  | succ fuel ih =>
      have calls (name : String) (key : NativeKey) (arguments : List Value) :=
        warns_alarmed hosted ih name key arguments
      exact warns_serve calls ih ((warns_step calls).driveBy passes loud fuel) fuel request

end Runs

end Machine

open Machine

namespace Interpreter

def evalTextAlarmed (host : Host) (cause : Error) (alarm : Stop) (fuel : Nat) (text : String) :
    Machine Value := do
  performThrough (alarmed cause alarm (callNative host)) fuel (.evaluate (← readText text))

/-- An error reported by a native function ends the evaluation, if it is not the error of an empty
stack: with any alarm in its place, the evaluation is the real one as long as the alarm is not given, and
where it is given, the real one ends with the error. A panic of a function of the host is such an
error. -/
theorem reported_ends {host : Host} (hosted : host.Forwards) {cause : Error}
    (passes : cause ≠ .stackUnderflow) (fuel : Nat) (text : String) (world : World) :
    (∀ alarm, alarm ≠ .error .stackUnderflow →
      evalTextAlarmed host cause alarm fuel text world = evalText host fuel text world ∨
        ∃ after, evalTextAlarmed host cause alarm fuel text world = .error alarm after ∧
          evalText host fuel text world = .error (.error cause) after) ∧
    ∀ key perform name arguments before message between,
      host.call key perform name arguments before = .ok (.panic message) between →
        ∃ trace after, callNative host perform name (.hosted key) arguments before =
          .error (.error (.panic name message trace)) after := by
  constructor
  · intro alarm loud
    have runs : Warns cause alarm (evalTextAlarmed host cause alarm fuel text)
        (evalText host fuel text) :=
      .andThen fun values => warns_perform passes loud hosted fuel (.evaluate values)
    exact runs world
  · intro key perform name arguments before message between panicked
    obtain ⟨journal, logged⟩ := log_apply .warn
      (fun _ => s!"native `{name}` panicked: {message}") between
    refine ⟨{ between with journal }.env.stackTrace, { between with journal }, ?_⟩
    simp only [callNative, bind_apply, panicked, logged, currentEnv_apply]
    rfl

section Reporting

def reporting (cause : Error) : Host where
  call
    | 0, perform, _, [function] => do return .value (← perform (.apply function []))
    | _, _, _, _ => fail cause

theorem forwards_reporting (cause : Error) : (reporting cause).Forwards := by
  intro key name arguments
  match key, arguments with
  | 0, [function] => exact .andThen (.request _) fun _ => .alone _
  | 0, [] | 0, _ :: _ :: _ | _ + 1, _ => exact .alone _

def withReporting : World :=
  lastState (do
    addNative "ask" (.hosted 0) .any false
    addNative "refuse" (.hosted 1) .any false) (fresh ⟨10000, 32, false, false, false⟩)

theorem reported_ends_nested :
    let cause : Error := .runtime (.reported "refused")
    let alarm : Stop := .error (.runtime (.reported "alarm"))
    let text := "(ask (fn [] (+ 1 (refuse))))"
    (reporting cause).Forwards ∧ cause ≠ .stackUnderflow ∧ ∃ after,
      evalTextAlarmed (reporting cause) cause alarm 20 text withReporting = .error alarm after ∧
        evalText (reporting cause) 20 text withReporting = .error (.error cause) after := by
  intro cause alarm text
  have hosted := forwards_reporting cause
  have passes : cause ≠ .stackUnderflow := by decide
  obtain ⟨runs, _⟩ := reported_ends hosted passes 20 text withReporting
  refine ⟨hosted, passes, ?_⟩
  rcases runs alarm (by decide) with same | ended
  · exfalso
    have differs :
        (attempt (evalTextAlarmed (reporting cause) cause alarm 20 text)).run' withReporting ≠
          (attempt (evalText (reporting cause) 20 text)).run' withReporting := by decide +kernel
    apply differs
    delta EStateM.run' EStateM.run
    rw [attempt, attempt, same]
  · exact ended

/-- A native function that reports an empty stack is called outside of all calls: the evaluation comes to
nil all the same. Called by a compiled function, it ends the evaluation. -/
theorem underflow_swallowed :
    let host := reporting .stackUnderflow
    let alarm : Error := .runtime (.reported "alarm")
    let comesTo (body : Machine Value) := (attempt body).run' withReporting
    comesTo (evalTextAlarmed host .stackUnderflow (.error alarm) 20 "(refuse)") =
        some (.error alarm) ∧
      comesTo (evalText host 20 "(refuse)") = some (.ok .nil) ∧
      comesTo (evalText host 20 "((fn [] (refuse)))") = some (.error .stackUnderflow) := by
  decide +kernel

end Reporting

end Interpreter

end StackLisp
