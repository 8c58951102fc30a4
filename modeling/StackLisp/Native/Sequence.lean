import StackLisp.Machine.World

/-!
Lists, arrays and text as sequences.
-/

namespace StackLisp.Native

open Machine

def wrongArgument {α : Type} (native what : String) (value : Value) : Machine α := do
  fail (.type (.wrongArgument native what (← readStore fun store => store.kindOf value)))

def contents (ref : ArrayRef) : Machine (List Value) :=
  readStore fun store => (store.array ref).toList

def position (native : String) (index : Value) (length : Nat) : Machine Nat :=
  match index with
  | .int n =>
    if 0 ≤ n.toInt ∧ n.toInt.toNat < length then return n.toInt.toNat
    else fail (.index (.outOfBounds native n.toInt length))
  | other => wrongArgument native "an integer index" other

def first (native : String) (sequence : Value) : Machine Value :=
  match sequence with
  | .pair _ head _ => return head
  | .array ref => do
    match ← contents ref with
    | item :: _ => return item
    | [] => fail (.index .firstOfEmptyArray)
  | .nil => fail (.index .firstOfEmptyList)
  | other => wrongArgument native "a list or array" other

def rest (native : String) (sequence : Value) : Machine Value :=
  match sequence with
  | .pair _ _ tail => return tail
  | .nil => return .nil
  | .array ref => do newArray ((← contents ref).drop 1)
  | other => wrongArgument native "a list or array" other

def length (native : String) (sequence : Value) : Machine Value := do
  let count : Nat ←
    match sequence with
    | .text s => pure s.length
    | .record ref => readStore fun store => (store.record ref).fields.size
    | other =>
      match ← readStore fun store => store.sequenceItems other with
      | .ok items => pure items.length
      | .error _ => wrongArgument native "a sequence" other
  return .int (Int64.ofNat count)

def append (native : String) (sequence : Value) (items : List Value) : Machine Value :=
  match sequence with
  | .array ref => do newArray ((← contents ref) ++ items)
  | .nil | .pair _ _ _ => do newList ((← ask fun store => store.listItems sequence) ++ items)
  | other => wrongArgument native "a list or array" other

def allItems : List Value → Machine (List Value)
  | [] => return []
  | sequence :: later => do
    let items ← ask fun store => store.sequenceItems sequence
    return items ++ (← allItems later)

def allText (native : String) : List Value → Machine String
  | [] => return ""
  | .text s :: later => return s ++ (← allText native later)
  | other :: _ => wrongArgument native "strings" other

/-- Joins sequences; the first one decides what comes out. -/
def concat (native : String) (arguments : List Value) : Machine Value :=
  match arguments with
  | [] | .nil :: _ | .pair _ _ _ :: _ => do newList (← allItems arguments)
  | .array _ :: _ => do newArray (← allItems arguments)
  | .text _ :: _ => return .text (← allText native arguments)
  | other :: _ => wrongArgument native "lists, arrays, or strings" other

def arrayGet (native : String) (array index : Value) : Machine Value :=
  match array with
  | .array ref => do
    let items ← readStore fun store => store.array ref
    let place ← position native index items.size
    return items.getD place .nil
  | other => wrongArgument native "an array" other

def arraySet (native : String) (array index value : Value) : Machine Value :=
  match array with
  | .array ref => do
    let size ← readStore fun store => (store.array ref).size
    let place ← position native index size
    onStore fun store => (.nil, store.setItem ref place value)
  | other => wrongArgument native "an array" other

def isEmpty (value : Value) : Machine Bool :=
  match value with
  | .nil => return true
  | .text s => return s.isEmpty
  | .array ref => readStore fun store => (store.array ref).isEmpty
  | .record ref => readStore fun store => (store.record ref).fields.isEmpty
  | _ => return false

end StackLisp.Native
