import StackLisp.Native.Sequence

/-!
Records and pointers.
-/

namespace StackLisp.Native

open Machine

def fillFields (store : Store) (fields : OrderedMap Key Value) :
    List Value → Except Error (OrderedMap Key Value)
  | key :: value :: later =>
    match store.keyOf key with
    | .ok key => fillFields store (fields.set key value) later
    | .error error => .error error
  | _ => .ok fields

/-- A new record. An odd number of arguments starts with the name of its type. -/
def newRecord (native : String) (arguments : List Value) : Machine Value := do
  let (typeName, fields) :=
    match arguments with
    | .text name :: later => if later.length % 2 = 0 then (name, later) else ("", arguments)
    | _ => ("", arguments)
  if fields.length % 2 ≠ 0 then fail (.runtime (.unpairedKeys native))
  let fields ← ask fun store => fillFields store .empty fields
  onStore fun store => store.newRecord ⟨typeName, fields⟩

def recordRef (native : String) : Value → Machine RecordRef
  | .record ref => return ref
  | other => wrongArgument native "a hash" other

def getField (native : String) (record key : Value) (default : Option Value) : Machine Value := do
  let ref ← recordRef native record
  match ← ask fun store => store.getField ref key with
  | some value => return value
  | none =>
    match default with
    | some value => return value
    | none => fail (.index (.noKey native (← readStore fun store => store.text key)))

def setField (native : String) (record key value : Value) : Machine Value := do
  let ref ← recordRef native record
  tryOnStore fun store => store.setField ref key value
  return .nil

def deleteField (native : String) (record key : Value) : Machine Value := do
  let ref ← recordRef native record
  let _ ← tryOnStore fun store => store.deleteField ref key
  return .nil

def keys (native : String) (record : Value) : Machine Value := do
  let ref ← recordRef native record
  newArray (← readStore fun store => (store.record ref).fields.keys.map Key.toValue)

def deref (native : String) : Value → Machine Value
  | .pointer ref => readStore fun store => store.pointer ref
  | other => wrongArgument native "a pointer" other

end StackLisp.Native
