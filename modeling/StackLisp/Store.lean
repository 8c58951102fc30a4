import StackLisp.Code
import StackLisp.Record
import StackLisp.Scope
import StackLisp.Symbol.Table

/-!
The store: everything that interpreters of one family share. Arrays, records, pointers, scopes and
functions have a place in it, are never moved and never removed, so a place is an identity. A place that was
never given out reads as something empty.
-/

namespace StackLisp

structure Store where
  symbols : SymbolTable
  arrays : Array (Array Value)
  records : Array Record
  pointers : Array Value
  scopes : Array Scope
  functions : Array Function
  /-- functions that expand forms, by the number of the symbol at the head of the form -/
  expanders : List (Nat × FunctionRef)
  /-- numbers of symbols whose calls leave their arguments unevaluated -/
  builders : List Nat
  nextMark : Nat
  /-- where the search for the next fresh name starts -/
  nextName : Nat
  deriving Inhabited

namespace Store

def global : ScopeRef := 0

def empty : Store :=
  { symbols := .empty
    arrays := #[]
    records := #[]
    pointers := #[]
    scopes := #[Scope.empty "global" false]
    functions := #[]
    expanders := []
    builders := []
    nextMark := 0
    nextName := 0 }

def array (store : Store) (ref : ArrayRef) : Array Value := store.arrays.getD ref #[]

def record (store : Store) (ref : RecordRef) : Record := store.records.getD ref default

def pointer (store : Store) (ref : PointerRef) : Value := store.pointers.getD ref .nil

def scope (store : Store) (ref : ScopeRef) : Scope := store.scopes.getD ref default

def function (store : Store) (ref : FunctionRef) : Function := store.functions.getD ref .vacant

def typeName (store : Store) (ref : RecordRef) : String := (store.record ref).typeName

def kindAt (store : Store) : Nat → Value → Option Kind
  | _, .nil => some .nil
  | _, .endMark => some .endMark
  | _, .int _ => some .int
  | _, .uint _ => some .uint
  | _, .float _ => some .float
  | _, .char _ => some .char
  | _, .bool _ => some .bool
  | _, .text _ => some .text
  | _, .symbol _ => some .symbol
  | _, .pair _ _ _ => some .list
  | _, .array _ => some .array
  | _, .record ref => some (.record (store.typeName ref))
  | _, .function _ => some .function
  | _, .reflect _ => some .reflect
  | 0, .pointer _ => none
  | fuel + 1, .pointer ref => (store.kindAt fuel (store.pointer ref)).map .pointer

/-- The kind of a value. A pointer that leads back to itself through pointers alone has none: the
kind of what it leads to would have no end. -/
def kind? (store : Store) (value : Value) : Option Kind :=
  store.kindAt (store.pointers.size + 1) value

/-- The kind that is told of a value. The question has no answer for a value without a kind, and
`endMark` stands in for one. -/
def kindOf (store : Store) (value : Value) : Kind := (store.kind? value).getD .endMark

/-- The kind that a variable keeps once it holds the value. Lists, arrays, symbols, functions and
untyped records leave their variable free. -/
def lastingKind (store : Store) (value : Value) : Option Kind :=
  match value with
  | .int _ | .uint _ | .float _ | .char _ | .bool _ | .text _ | .pointer _ | .reflect _ =>
    store.kind? value
  | .record ref => if (store.typeName ref).isEmpty then none else store.kind? value
  | _ => none

/-! New objects. -/

def newArray (store : Store) (items : Array Value) : Value × Store :=
  (.array store.arrays.size, { store with arrays := store.arrays.push items })

def newRecord (store : Store) (record : Record) : Value × Store :=
  (.record store.records.size, { store with records := store.records.push record })

def newFunction (store : Store) (function : Function) : FunctionRef × Store :=
  (store.functions.size, { store with functions := store.functions.push function })

def newScope (store : Store) (scope : Scope) : ScopeRef × Store :=
  (store.scopes.size, { store with scopes := store.scopes.push scope })

def newPair (store : Store) (head tail : Value) : Value × Store :=
  (.pair store.nextMark head tail, { store with nextMark := store.nextMark + 1 })

def newPointer (store : Store) (target : Value) : Value × Store :=
  (.pointer store.pointers.size, { store with pointers := store.pointers.push target })

def newReflect (store : Store) : Value × Store :=
  (.reflect store.nextMark, { store with nextMark := store.nextMark + 1 })

def pairUp (mark : Nat) : List Value → Value → Value
  | [], tail => tail
  | head :: later, tail => .pair mark head (pairUp (mark + 1) later tail)

def newListWithTail (store : Store) (items : List Value) (tail : Value) : Value × Store :=
  (pairUp store.nextMark items tail, { store with nextMark := store.nextMark + items.length })

def newList (store : Store) (items : List Value) : Value × Store :=
  store.newListWithTail items .nil

mutual

/-- The value that a datum stands for; its arrays and pairs are new. -/
def load (store : Store) : Datum → Value × Store
  | .nil => (.nil, store)
  | .int n => (.int n, store)
  | .uint n => (.uint n, store)
  | .float x => (.float x, store)
  | .char c => (.char c, store)
  | .bool b => (.bool b, store)
  | .text s => (.text s, store)
  | .symbol s => (.symbol s, store)
  | .pair head tail =>
    let (head, store) := store.load head
    let (tail, store) := store.load tail
    store.newPair head tail
  | .array items =>
    let (items, store) := store.loadAll items
    store.newArray items.toArray

def loadAll (store : Store) : List Datum → List Value × Store
  | [] => ([], store)
  | datum :: later =>
    let (value, store) := store.load datum
    let (values, store) := store.loadAll later
    (value :: values, store)

end

/-! Changes. -/

def setItem (store : Store) (ref : ArrayRef) (index : Nat) (value : Value) : Store :=
  { store with arrays := store.arrays.modify ref fun items => items.setIfInBounds index value }

def modifyRecord (store : Store) (ref : RecordRef)
    (change : OrderedMap Key Value → OrderedMap Key Value) : Store :=
  { store with
    records := store.records.modify ref fun record =>
      { record with fields := change record.fields } }

/-- Binds a symbol whatever it was bound to before. -/
def define (store : Store) (ref : ScopeRef) (symbol : Symbol) (value : Value) : Store :=
  { store with scopes := store.scopes.modify ref fun scope => scope.insert symbol.id value }

def intern (store : Store) (name : String) : Symbol × Store :=
  let (symbol, symbols) := store.symbols.symbol name
  (symbol, { store with symbols })

def freshSymbol (store : Store) (stem : String) : Symbol × Store :=
  let (symbol, nextName, symbols) := store.symbols.fresh stem store.nextName
  (symbol, { store with symbols, nextName })

def addFunction (store : Store) (function : Function) : Store :=
  let (symbol, store) := store.intern function.name
  let others := store.builders.filter (· != symbol.id)
  let builders := if function.isBuilder then symbol.id :: others else others
  let (ref, store) := { store with builders }.newFunction function
  store.define global symbol (.function ref)

def isBuilder (store : Store) (id : Nat) : Bool := store.builders.contains id

def expander? (store : Store) (id : Nat) : Option FunctionRef := store.expanders.lookup id

def addExpander (store : Store) (id : Nat) (ref : FunctionRef) : Store :=
  { store with expanders := (id, ref) :: store.expanders.filter fun entry => entry.1 != id }

/-! Sequences. -/

def listItems (store : Store) (value : Value) : Except Error (List Value) :=
  match value.spine with
  | (items, .nil) => .ok items
  | (_, last) => .error (.type (.improperList (store.kindOf last)))

def sequenceItems (store : Store) (value : Value) : Except Error (List Value) :=
  match value with
  | .array ref => .ok (store.array ref).toList
  | .nil => .ok []
  | .pair _ _ _ => store.listItems value
  | other => .error (.type (.notSequence (store.kindOf other)))

/-! Records. -/

def keyOf (store : Store) (value : Value) : Except Error Key :=
  match Key.ofValue? value with
  | some key => .ok key
  | none => .error (.type (.notKey (store.kindOf value)))

def getField (store : Store) (ref : RecordRef) (key : Value) : Except Error (Option Value) :=
  (store.keyOf key).map fun key => (store.record ref).fields.get? key

def setField (store : Store) (ref : RecordRef) (key value : Value) :
    Except Error Unit × Store :=
  match store.keyOf key with
  | .ok key => (.ok (), store.modifyRecord ref fun fields => fields.set key value)
  | .error error => (.error error, store)

def deleteField (store : Store) (ref : RecordRef) (key : Value) : Except Error Bool × Store :=
  match store.keyOf key with
  | .ok key =>
    (.ok ((store.record ref).fields.contains key),
      store.modifyRecord ref fun fields => fields.erase key)
  | .error error => (.error error, store)

end Store

end StackLisp
