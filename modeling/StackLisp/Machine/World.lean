import StackLisp.Datum.Reader
import StackLisp.Stack
import StackLisp.Store.Binding
import StackLisp.Store.Print

/-!
The state of a stack machine, and computations on it. A computation that fails keeps the changes it
made; one that runs out of fuel says so, which is no error of the program.
-/

namespace StackLisp

structure CallFrame where
  function : Function
  resume : Nat
  /-- the height of the scope stack below the scope of the call -/
  scopeDepth : Nat
  callee : String
  deriving Repr, Inhabited

/-- An interpreter's own part of the state: what it is executing, and what it is reading. -/
structure Env where
  data : Stack Value
  scopes : Stack ScopeRef
  calls : Stack CallFrame
  function : Function
  /-- the next instruction; none behind a return with no caller to go on with -/
  pc : Option Nat
  /-- the depth of calls at which a return ends the current run -/
  base : Nat
  nesting : Nat
  /-- started on first use -/
  reader : Option Reader
  deriving Inhabited

namespace Env

def idle : Function := .program "__main" #[]

def fresh : Env :=
  { data := .empty
    scopes := Stack.empty.push Store.global
    calls := .empty
    function := idle
    pc := some 0
    base := 0
    nesting := 0
    reader := none }

/-- Empties the stacks, but for the global scope, and forgets the program. -/
def clear (env : Env) : Env :=
  { env with
    data := .empty
    scopes := env.scopes.truncate 1
    calls := .empty
    function := idle
    pc := some 0
    base := 0 }

/-- A copy that executes the same, and reads on its own. -/
def copy (env : Env) : Env := { env with reader := none }

def advance (env : Env) : Env := { env with pc := env.pc.map (· + 1) }

end Env

structure Config where
  maxCallDepth : Nat
  maxNesting : Nat
  /-- whether calls and returns are recorded -/
  observing : Bool
  /-- whether messages are recorded -/
  logging : Bool
  /-- whether every executed instruction is recorded -/
  tracing : Bool
  deriving DecidableEq, Repr

instance : Inhabited Config := ⟨⟨10000, 32, false, false, false⟩⟩

inductive Level where
  | trace
  | debug
  | warn
  deriving DecidableEq, Repr

inductive Event where
  | called (name : String) (arguments : List Value)
  | returned (name : String) (result : Value)
  deriving Repr

structure Journal where
  output : String
  log : Array (Level × String)
  /-- calls and returns, with the texts that their values had at the time -/
  events : Array (Event × List String)
  deriving Inhabited

def Journal.empty : Journal := ⟨"", #[], #[]⟩

structure World where
  config : Config
  store : Store
  env : Env
  journal : Journal
  deriving Inhabited

inductive Stop where
  | error (cause : Error)
  | exhausted
  deriving DecidableEq, Repr

abbrev Machine := EStateM Stop World

namespace Machine

def fail {α : Type} (cause : Error) : Machine α := throw (.error cause)

def exhausted {α : Type} : Machine α := throw .exhausted

def ofExcept {α : Type} : Except Error α → Machine α
  | .ok result => pure result
  | .error cause => fail cause

/-- A computation whose failure is a result; running out of fuel is none. -/
def attempt {α : Type} (body : Machine α) : Machine (Except Error α) := fun world =>
  match body world with
  | .ok result world => .ok (.ok result) world
  | .error (.error cause) world => .ok (.error cause) world
  | .error .exhausted world => .error .exhausted world

def currentEnv : Machine Env := do return (← get).env

def currentConfig : Machine Config := do return (← get).config

def onStore {α : Type} (change : Store → α × Store) : Machine α := fun world =>
  match world with
  | ⟨config, store, env, journal⟩ =>
    match change store with
    | (result, store) => .ok result ⟨config, store, env, journal⟩

/-- A change that may fail, and whose failure may leave a trace in the store. -/
def tryOnStore {α : Type} (change : Store → Except Error α × Store) : Machine α := do
  ofExcept (← onStore change)

def readStore {α : Type} (read : Store → α) : Machine α := do return read (← get).store

def ask {α : Type} (question : Store → Except Error α) : Machine α := do
  ofExcept (← readStore question)

def onEnv {α : Type} (change : Env → α × Env) : Machine α := fun world =>
  match world with
  | ⟨config, store, env, journal⟩ =>
    match change env with
    | (result, env) => .ok result ⟨config, store, env, journal⟩

def modifyEnv (change : Env → Env) : Machine Unit := onEnv fun env => ((), change env)

def onJournal (change : Journal → Journal) : Machine Unit := fun world =>
  match world with
  | ⟨config, store, env, journal⟩ => .ok () ⟨config, store, env, change journal⟩

def print (text : String) : Machine Unit :=
  onJournal fun journal => { journal with output := journal.output ++ text }

def record (level : Level) (message : String) : Machine Unit :=
  onJournal fun journal => { journal with log := journal.log.push (level, message) }

def log (level : Level) (message : Unit → String) : Machine Unit := do
  if (← currentConfig).logging then record level (message ())

def observe (event : Event) (values : List Value) : Machine Unit := do
  if (← currentConfig).observing then
    let texts ← readStore fun store => values.map store.text
    onJournal fun journal => { journal with events := journal.events.push (event, texts) }

def observeCall (name : String) (arguments : List Value) : Machine Unit :=
  observe (.called name arguments) arguments

def observeReturn (name : String) (result : Value) : Machine Unit :=
  observe (.returned name result) [result]

/-! The data stack. -/

def push (value : Value) : Machine Unit :=
  modifyEnv fun env => { env with data := env.data.push value }

def pop : Machine Value := do
  let popped ← onEnv fun env =>
    match env.data.pop? with
    | some (value, data) => (some value, { env with data })
    | none => (none, env)
  match popped with
  | some value => return value
  | none => fail .stackUnderflow

def popMany (count : Nat) : Machine (List Value) := do
  let popped ← onEnv fun env =>
    match env.data.popMany? count with
    | some (values, data) => (some values, { env with data })
    | none => (none, env)
  match popped with
  | some values => return values
  | none => fail .stackUnderflow

def advance : Machine Unit := modifyEnv Env.advance

/-! Symbols and new values. -/

def intern (name : String) : Machine Symbol := onStore fun store => store.intern name

def newList (items : List Value) : Machine Value := onStore fun store => store.newList items

def newArray (items : List Value) : Machine Value :=
  onStore fun store => store.newArray items.toArray

def lookup (symbol : Symbol) : Machine Value := do
  let env ← currentEnv
  tryOnStore fun store => store.lookup env.scopes.elements env.function.captures symbol

/-! Runs inside of runs. -/

/-- A computation in another interpreter of the same family; the present one is put back behind
it, whatever comes of it. -/
def inEnv {α : Type} (other : Env) (body : Machine α) : Machine α := fun world =>
  match world with
  | ⟨config, store, env, journal⟩ =>
    match body ⟨config, store, other, journal⟩ with
    | .ok result world => .ok result { world with env }
    | .error stop world => .error stop { world with env }

def checkNesting : Machine Unit := do
  let limit := (← currentConfig).maxNesting
  if limit ≤ (← currentEnv).nesting then fail (.runtime (.nestingDepth limit))

def logDuplicate : Machine Unit := log .debug fun _ => "duplicating environment"

/-- A computation in a new interpreter, counted as nested in the present one. -/
def inNested {α : Type} (body : Machine α) : Machine α := do
  checkNesting
  logDuplicate
  let nesting := (← currentEnv).nesting + 1
  inEnv { Env.fresh with nesting } body

/-! Views of the state as text. -/

/-- Offsets are shown as signed words. A jump may lead to any word, so one that leads far outside
of the code can show as negative, as does the missing offset behind a last return. -/
def offsetText : Option Nat → String
  | some offset => signedText (signedWord offset)
  | none => "-1"

end Machine

namespace Env

def stackTrace (env : Env) : String :=
  let running := s!"  in {env.function.name} at pc {Machine.offsetText env.pc}\n"
  let pending := env.calls.elements.map fun frame =>
    let offset := signedText (Int.ofNat frame.resume - 1)
    s!"  called from {frame.function.name} at pc {offset} (calling {frame.callee})\n"
  running ++ String.join pending

end Env

end StackLisp
