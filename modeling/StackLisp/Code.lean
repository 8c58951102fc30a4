import StackLisp.Value

/-!
Instructions, and the functions made of them. Jumps go to absolute places in the instructions of
the function that owns them.
-/

namespace StackLisp

inductive Exit where
  | leaveLoop
  | nextRound
  deriving DecidableEq, Repr, Inhabited

def Exit.name : Exit → String
  | .leaveLoop => "break"
  | .nextRound => "continue"

inductive Instr where
  | push (value : Value)
  | pop
  | dup
  | get (symbol : Symbol)
  /-- pop, and bind in the innermost scope -/
  | put (symbol : Symbol)
  /-- pop, and assign where the symbol is bound -/
  | set (symbol : Symbol)
  | call (symbol : Symbol) (count : Nat)
  /-- call the value under the arguments -/
  | dispatch (count : Nat)
  | jump (target : Nat)
  /-- pop, and jump if the value counts as `direction` -/
  | branch (direction : Bool) (target : Nat)
  | ret
  | closure (function : FunctionRef)
  | openScope
  | closeScope
  /-- leaves a round of a loop; stands for a jump until the loop is compiled -/
  | leave (exit : Exit)
  deriving DecidableEq, Repr, Inhabited

def Instr.relocate (base : Nat) : Instr → Instr
  | .jump target => .jump (target + base)
  | .branch direction target => .branch direction (target + base)
  | instr => instr

abbrev Code := List Instr

def Code.followedBy (first second : Code) : Code := first ++ second.map (Instr.relocate first.length)

inductive Arity where
  | exactly (count : Nat)
  | atLeast (count : Nat)
  | any
  deriving DecidableEq, Repr, Inhabited

namespace Arity

def accepts : Arity → Nat → Bool
  | .exactly count, got => got == count
  | .atLeast count, got => count ≤ got
  | .any, _ => true

def text : Arity → String
  | .exactly count => decimalText count
  | .atLeast count => "at least " ++ decimalText count
  | .any => "any number of"

def check (arity : Arity) (function : String) (got : Nat) : Except Error Unit :=
  if arity.accepts got then .ok () else .error (.argCount function arity.text got)

end Arity

structure Parameter where
  symbol : Symbol
  kind : Option Kind
  deriving DecidableEq, Repr, Inhabited

/-- The scopes of one function that a closure was made in, innermost first. -/
structure Capture where
  scopes : List ScopeRef
  /-- the name of that function -/
  owner : String
  deriving DecidableEq, Repr, Inhabited

inductive Standard where
  | add | sub | mul | div | rem | pow
  | equal | notEqual | less | lessEqual | greater | greaterEqual | not
  | list | cons | first | rest | length | append | concat
  | array | arrayGet | arraySet
  | record | recordGet | recordSet | recordDelete | keys
  | pointer | deref
  | text | print | printLine
  | kindName | symbolNumber | freshSymbol
  | apply | map
  | isNil | isEmpty | isList | isArray | isNumber | isText | isSymbol | isRecord | isFunction
  | eval | raise | expand
  deriving DecidableEq, Repr, Inhabited

/-- What a native function does: one of the standard things, or what the host has under a key. -/
inductive NativeKey where
  | standard (native : Standard)
  | hosted (key : Nat)
  deriving DecidableEq, Repr, Inhabited

inductive Body where
  /-- `captures` leads from the function's own scopes outward along the functions that enclose it -/
  | compiled (parameters : List Parameter) (rest : Option Symbol) (code : Array Instr)
      (captures : List Capture)
  /-- a builder gets its arguments unevaluated -/
  | native (key : NativeKey) (arity : Arity) (builder : Bool)
  deriving Repr, Inhabited

structure Function where
  name : String
  body : Body
  deriving Repr, Inhabited

namespace Function

def code (function : Function) : Array Instr :=
  match function.body with
  | .compiled _ _ code _ => code
  | .native _ _ _ => #[]

def captures (function : Function) : List Capture :=
  match function.body with
  | .compiled _ _ _ captures => captures
  | .native _ _ _ => []

def arityOf (parameters : List Parameter) (rest : Option Symbol) : Arity :=
  if rest.isSome then .atLeast parameters.length else .exactly parameters.length

def arity (function : Function) : Arity :=
  match function.body with
  | .compiled parameters rest _ _ => arityOf parameters rest
  | .native _ arity _ => arity

def isBuilder (function : Function) : Bool :=
  match function.body with
  | .compiled _ _ _ _ => false
  | .native _ _ builder => builder

def program (name : String) (code : Array Instr) : Function :=
  ⟨name, .compiled [] none code []⟩

/-- What is found where no function was ever made: it takes no arguments and gives nil. -/
def vacant : Function := ⟨"", .compiled [] none #[.push .nil, .ret] []⟩

/-- An instance of a function made in the given scopes, while `maker` runs. -/
def closeOver (function : Function) (scopes : List ScopeRef) (maker : Function) : Function :=
  match function.body with
  | .compiled parameters rest code _ =>
    { function with
      body := .compiled parameters rest code (⟨scopes, maker.name⟩ :: maker.captures) }
  | .native _ _ _ => function

end Function

end StackLisp
