import StackLisp.Interpreter
import StackLisp.Text.Blank
import StackLisp.Text.Typing

/-!
The console: an interactive session, line by line, and the command line.
-/

namespace StackLisp.Console

open Machine

def config : Config := default

/-! A session. -/

def banner : String := "Zy interactive environment; .dump shows state, .quit exits"

inductive Turn where
  | quit
  /-- whether the lines so far end inside a form -/
  | next (pending : Bool)
  deriving DecidableEq, Repr, Inhabited

def printLine (text : String) : Machine Unit := print (text ++ "\n")

def trim (line : String) : String :=
  let front := line.toList.dropWhile isBlank
  String.ofList (front.reverse.dropWhile isBlank).reverse

/-- The calls under way when an error came up: those that a panic kept, or the present ones. -/
def traceOf (error : Error) : Machine String := do
  match error with
  | .panic _ _ trace => return trace
  | _ => return (← currentEnv).stackTrace

/-- Evaluates what was read, and shows the value unless it is nil. -/
def respond (fuel : Nat) (values : List Value) : Machine Unit := do
  if values.isEmpty then return ()
  match ← attempt (Interpreter.evalValues .none fuel values) with
  | .ok .nil => return ()
  | .ok value => printLine (← readStore fun store => store.text value)
  | .error error =>
    printLine s!"error: {error.message}"
    printLine (← traceOf error)
    Interpreter.clear

def readAndRespond (fuel : Nat) (line : String) : Machine Turn := do
  match ← attempt (Interpreter.readLine line) with
  | .ok values =>
    respond fuel values
    return .next false
  | .error (.signal .moreInputNeeded) => return .next true
  | .error error =>
    printLine s!"error: {error.message}"
    Interpreter.resetReader
    return .next false

def turn (fuel : Nat) (pending : Bool) (line : String) : Machine Turn := do
  if pending then readAndRespond fuel line
  else
    match trim line with
    | "" => return .next false
    | ".quit" | ".exit" => return .quit
    | ".dump" =>
      printLine (Interpreter.dump (← get))
      return .next false
    | _ => readAndRespond fuel line

/-- The characters of each line of a text, the last line with or without an end. -/
def linesFrom (line : List Char) : List Char → List (List Char)
  | [] => if line.isEmpty then [] else [line.reverse]
  | '\r' :: '\n' :: rest => line.reverse :: linesFrom [] rest
  | '\n' :: rest => line.reverse :: linesFrom [] rest
  | c :: rest => linesFrom (c :: line) rest

def lines (text : String) : List String := (linesFrom [] text.toList).map typedLine

def turns (fuel : Nat) (pending : Bool) : List String → Machine Unit
  | [] => return ()
  | line :: later => do
    match ← turn fuel pending line with
    | .quit => return ()
    | .next pending => turns fuel pending later

def session (fuel : Nat) (input : String) : Machine Unit := do
  printLine banner
  turns fuel false (lines input)

/-! Files. -/

def fileText (bytes : ByteArray) : Except FileProblem String :=
  match String.fromUTF8? bytes with
  | some text => .ok text
  | none => .error .notText

def runFile (fuel : Nat) (found : Except FileProblem ByteArray) : Machine Value :=
  match found.bind fileText with
  | .ok text => Interpreter.evalText .none fuel text
  | .error problem => fail (.file problem)

/-! The command line. -/

inductive Command where
  | file (path : String)
  | eval (text : String)
  | interactive
  | unknown (word : String)
  deriving DecidableEq, Repr

def Command.ofArguments : List String → Command
  | [] => .interactive
  | "repl" :: _ => .interactive
  | "file" :: path :: _ => .file path
  | "eval" :: word :: words => .eval (" ".intercalate (word :: words))
  | other :: _ => .unknown other

/-- How a command ends: its exit code, and what it writes to the error stream. -/
structure Outcome where
  code : UInt32
  complaint : String
  deriving DecidableEq, Repr, Inhabited

def report (body : Machine Value) : Machine Outcome := do
  match ← attempt body with
  | .ok value =>
    printLine (← readStore fun store => store.text value)
    return ⟨0, ""⟩
  | .error error => return ⟨1, s!"error: {error.message}\n"⟩

def unknownCommand (word : String) : Outcome :=
  ⟨2, s!"unknown command `{word}`; try file, eval, or repl\n"⟩

end StackLisp.Console
