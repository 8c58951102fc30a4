import StackLisp.Machine.Run

/-!
The interpreter as its host sees it: text is read, compiled and run in one environment after the
other, functions of the host are registered, and the state is shown.

What runs is given fuel, once for each request. Enough fuel makes no difference to what comes out.
-/

namespace StackLisp.Interpreter

open Machine

/-! New interpreters. -/

def addNative (name : String) (key : NativeKey) (arity : Arity) (builder : Bool) : Machine Unit :=
  onStore fun store => ((), store.addFunction ⟨name, .native key arity builder⟩)

def addStandard : List Standard → Store → Store
  | [], store => store
  | native :: later, store =>
    addStandard later
      (store.addFunction ⟨native.name, .native (.standard native) native.arity false⟩)

def fresh (config : Config) : World :=
  ⟨config, addStandard Standard.all .empty, .fresh, .empty⟩

theorem fresh_store (config : Config) :
    (fresh config).store = addStandard Standard.all .empty := by simp only [fresh]

def duplicate : Machine Env := do
  logDuplicate
  return .fresh

/-! Reading. -/

def onReader {α : Type} (exchange : Reader → SymbolTable → α × Reader × SymbolTable) :
    Machine α := fun world =>
  match world with
  | ⟨config, store, env, journal⟩ =>
    match exchange (env.reader.getD .start) store.symbols with
    | (result, reader, symbols) =>
      .ok result ⟨config, { store with symbols }, { env with reader := some reader }, journal⟩

def valuesOf (told : List Datum × Option Error) : Machine (List Value) :=
  match told with
  | (data, none) => onStore fun store => store.loadAll data
  | (_, some error) => fail error

/-- Reads a complete text, whatever was left unfinished before. -/
def readText (text : String) : Machine (List Value) := do
  let told ← onReader fun reader symbols =>
    let (reader, symbols) := reader.restart symbols (text ++ "\n")
    let (told, reader) := reader.collect
    (told, reader, symbols)
  valuesOf told

/-- Reads on with one more line; what is unfinished waits for the next one. -/
def readLine (line : String) : Machine (List Value) := do
  let told ← onReader fun reader symbols =>
    let (reader, symbols) := reader.feed symbols (line ++ "\n")
    let (told, reader) := reader.collect
    (told, reader, symbols)
  valuesOf told

def resetReader : Machine Unit :=
  onReader fun reader symbols =>
    let (reader, symbols) := reader.restart symbols ""
    ((), reader, symbols)

def stopReader : Machine Unit := modifyEnv fun env => { env with reader := none }

/-! Running. -/

section Running

variable (host : Host) (fuel : Nat)

def loadValues (values : List Value) : Machine Unit := do
  let _ ← perform host fuel (.load values)

def loadText (text : String) : Machine Unit := do
  loadValues host fuel (← readText text)

def run : Machine Value := perform host fuel .run

def evalValues (values : List Value) : Machine Value := perform host fuel (.evaluate values)

def evalText (text : String) : Machine Value := do
  evalValues host fuel (← readText text)

/-- Evaluates a text in an interpreter of its own that shares all but the stacks. -/
def evalApart (text : String) : Machine Value := do
  inEnv (← duplicate) (evalText host fuel text)

def apply (function : Value) (arguments : List Value) : Machine Value :=
  perform host fuel (.apply function arguments)

def expand (expander : FunctionRef) (arguments : List Value) : Machine Value :=
  expandWith (perform host fuel) expander arguments

end Running

def clear : Machine Unit := modifyEnv Env.clear

/-! Names. -/

def lookup (name : String) : Machine Value := do
  Machine.lookup (← intern name)

def bindGlobal (name : String) (value : Value) : Machine Unit := do
  let symbol ← intern name
  tryOnStore fun store => store.bind Store.global symbol value

def freshSymbol (stem : String) : Machine Symbol :=
  onStore fun store => store.freshSymbol stem

/-! The state as text. -/

def listing (store : Store) (pc : Option Nat) (offset : Nat) : List Instr → String
  | [] => ""
  | instr :: later =>
    let mark := if pc = some offset then "*" else " "
    let line := s!"{mark} {padLeft 4 (decimalText offset)} {instr.text store}\n"
    line ++ listing store pc (offset + 1) later

def dataLines (store : Store) (offset : Nat) : List Value → String
  | [] => ""
  | value :: later =>
    s!"  {padLeft 3 (decimalText offset)}: {store.text value}\n" ++
      dataLines store (offset + 1) later

def bindingLine (store : Store) (binding : Nat × Value) : String :=
  let name := (store.symbols.nameOf? binding.1).getD "?"
  s!"    {name} = {store.text binding.2}\n"

def scopeLines (store : Store) (ref : ScopeRef) : String :=
  let scope := store.scope ref
  let mark := if scope.isCall then " (call)" else ""
  s!"  {scope.name}{mark}:\n" ++ String.join (scope.bindings.map (bindingLine store))

def dump (world : World) : String :=
  let env := world.env
  s!"function {env.function.name}:\n" ++
    listing world.store env.pc 0 env.function.code.toList ++
    s!"data stack ({decimalText env.data.size}):\n" ++
    dataLines world.store 0 env.data.elements ++
    s!"scope stack ({decimalText env.scopes.size}):\n" ++
    String.join (env.scopes.elements.map (scopeLines world.store))

end StackLisp.Interpreter
