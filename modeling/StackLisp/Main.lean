import StackLisp.Console

/-!
The program: `file PATH` runs a file, `eval EXPRESSION` evaluates an expression, and `repl`, or
nothing, starts a session.
-/

namespace StackLisp.Console

/-- More steps than any machine gets done. -/
def plenty : Nat := 1152921504606846976

def flushOutput (world : World) : IO World := do
  let out ← IO.getStdout
  out.putStr world.journal.output
  out.flush
  return { world with journal := .empty }

def finish (world : World) (body : Machine Outcome) : IO UInt32 := do
  match body world with
  | .ok outcome world =>
    let _ ← flushOutput world
    (← IO.getStderr).putStr outcome.complaint
    return outcome.code
  | .error _ world =>
    let _ ← flushOutput world
    return 1

/-- A directory can be opened, and fails when it is read; then its name is not given. -/
def fileProblem : IO.Error → FileProblem
  | .noFileOrDirectory .. => .notFound
  | .permissionDenied .. => .noPermission
  | .inappropriateType (some _) .. => .notDirectory
  | .inappropriateType none .. => .isDirectory
  | .invalidArgument .. => .nameTooLong
  | _ => .unreadable

def readFile (path : String) : IO (Except FileProblem ByteArray) := do
  try return .ok (← IO.FS.readBinFile path)
  catch error => return .error (fileProblem error)

partial def converse (world : World) (pending : Bool) : IO UInt32 := do
  let line ← (← IO.getStdin).getLine
  if line.isEmpty then return 0
  match turn plenty pending ((lines line).headD "") world with
  | .ok .quit world =>
    let _ ← flushOutput world
    return 0
  | .ok (.next pending) world => converse (← flushOutput world) pending
  | .error _ world =>
    let _ ← flushOutput world
    return 1

end StackLisp.Console

open StackLisp

def main (arguments : List String) : IO UInt32 := do
  let world := Interpreter.fresh Console.config
  match Console.Command.ofArguments arguments with
  | .eval text =>
    let body := Interpreter.evalText .none Console.plenty text
    Console.finish world (Console.report body)
  | .file path =>
    let found ← Console.readFile path
    Console.finish world (Console.report (Console.runFile Console.plenty found))
  | .interactive =>
    match Console.printLine Console.banner world with
    | .ok _ world => Console.converse (← Console.flushOutput world) false
    | .error _ _ => return 1
  | .unknown word => Console.finish world (return Console.unknownCommand word)
