import StackLisp.Datum.Parse

/-!
A reader of data that is fed in chunks and read from in batches.

Behind each chunk the reader goes on until it can go no further: the text is used up, or a token or
a character was refused. What it has to tell then is queued as a reply: the finished data, with the
error that stopped them; or, if the text ends inside a form or a comment, that more is needed. A
caller collects all queued replies at once, and new text takes back replies that only asked for it.
-/

namespace StackLisp

structure Reply where
  data : List Datum
  error : Option Error
  deriving Repr, Inhabited

structure Reader where
  scan : Scan
  pending : List Finding
  parse : Parse
  /-- replies to be collected, oldest first -/
  replies : List Reply
  /-- there is nothing to tell but that the text is used up -/
  wanting : Bool
  stopped : Bool
  deriving Repr, Inhabited

namespace Reader

/-- A new reader has met the end of the empty text. -/
def start : Reader := ⟨.start, [], .empty, [], true, false⟩

def owes (reader : Reader) : Bool := reader.stopped || reader.wanting || !reader.replies.isEmpty

def reply (reader : Reader) (data : List Datum) (error : Option Error) : Reader :=
  { reader with replies := reader.replies ++ [⟨data, error⟩] }

/-- Waits at the end of the text. Finished data stay back while a form or a comment is open. -/
def settle (reader : Reader) : Reader :=
  if reader.parse.isIdle then
    match reader.parse.finished with
    | [] => { reader with wanting := true }
    | finished => { reader.reply finished.reverse none with parse := .empty }
  else reader.reply [] (some (.signal .moreInputNeeded))

/-- Gives out the finished data with an error, and drops the open forms. -/
def fail (reader : Reader) (error : Error) : Reader :=
  { reader.reply reader.parse.finished.reverse (some error) with parse := .empty }

def advance (reader : Reader) (table : SymbolTable) : List Finding → Reader × SymbolTable
  | [] => ({ reader with pending := [] }.settle, table)
  | .fault line problem :: later =>
    ({ reader with pending := later }.fail (.lex line problem), table)
  | .token token :: later =>
    match reader.parse.step table token with
    | (.ok parse, table) => advance { reader with parse } table later
    | (.error problem, table) =>
      let rest := if reader.parse.keepsRefused then .token token :: later else later
      ({ reader with pending := rest }.fail (.parse token.line problem), table)

def asksForInput (reply : Reply) : Bool :=
  reply.data.isEmpty && reply.error == some (.signal .moreInputNeeded)

def feed (reader : Reader) (table : SymbolTable) (text : String) : Reader × SymbolTable :=
  let (scan, findings) := reader.scan.run text.toList
  let reader := { reader with
    scan
    wanting := false
    replies := reader.replies.filter fun reply => !asksForInput reply }
  reader.advance table (reader.pending ++ findings)

/-- Forgets the text so far and the replies to it, and reads the given text. The forms that wait for
more of the old text are given up, and the data finished before them. -/
def restart (reader : Reader) (table : SymbolTable) (text : String) : Reader × SymbolTable :=
  let parse := reader.parse.unwind reader.parse.forms
  let reader := { reader with
    scan := .start
    pending := []
    parse := { parse with finished := [] }
    replies := []
    wanting := false }
  reader.feed table text

def stop (reader : Reader) : Reader := { reader with stopped := true }

/-- The data of a batch up to its first error. -/
def readBatch : List Reply → List Datum × Option Error
  | [] => ([], none)
  | ⟨data, some error⟩ :: _ => (data, some error)
  | ⟨data, none⟩ :: later =>
    let (rest, error) := readBatch later
    (data ++ rest, error)

/-- Takes the queued replies; there must be something that the reader owes. -/
def collect (reader : Reader) : (List Datum × Option Error) × Reader :=
  if reader.stopped then (([], some (.signal .shuttingDown)), reader)
  else (readBatch reader.replies, { reader with replies := [], wanting := false })

end Reader

end StackLisp
