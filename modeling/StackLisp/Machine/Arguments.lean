import StackLisp.Store

/-!
Matching the arguments of a call to the parameters of a function. If any keyword among the
arguments names a parameter, every keyword stands for the parameter of its name and takes the next
argument as its value, and the other arguments fill the free parameters in order; without such a
keyword all arguments are taken in order.
-/

namespace StackLisp

/-- Parameters that have their values, and arguments that found none. -/
structure Slots where
  filled : List (Option Value)
  /-- latest first -/
  surplus : List Value
  deriving Repr

namespace Slots

def empty (count : Nat) : Slots := ⟨List.replicate count none, []⟩

def fillFirst (value : Value) : List (Option Value) → Option (List (Option Value))
  | [] => none
  | none :: later => some (some value :: later)
  | some old :: later => (fillFirst value later).map (some old :: ·)

def place (slots : Slots) (value : Value) : Slots :=
  match fillFirst value slots.filled with
  | some filled => { slots with filled }
  | none => { slots with surplus := value :: slots.surplus }

def count (slots : Slots) : Nat :=
  (slots.filled.filter Option.isSome).length + slots.surplus.length

end Slots

def parameterIndex? (parameters : List Parameter) (id : Nat) : Option Nat :=
  parameters.findIdx? fun parameter => parameter.symbol.id == id

def namesParameter (parameters : List Parameter) (argument : Value) : Bool :=
  match argument.keyword? with
  | some keyword => (parameterIndex? parameters keyword.id).isSome
  | none => false

def fillNamed (function : String) (parameters : List Parameter) :
    List Value → Slots → Except Error Slots
  | [], slots => .ok slots
  | argument :: later, slots =>
    match argument.keyword? with
    | none => fillNamed function parameters later (slots.place argument)
    | some keyword =>
      match parameterIndex? parameters keyword.id with
      | none => .error (.runtime (.noParameter function keyword.text))
      | some index =>
        match later with
        | [] => .error (.runtime (.keywordWithoutValue function keyword.text))
        | value :: later =>
          match slots.filled[index]? with
          | some none =>
            fillNamed function parameters later
              { slots with filled := slots.filled.set index (some value) }
          | _ =>
            let parameter := ((parameters[index]?).map fun p => p.symbol.name).getD ""
            .error (.runtime (.parameterTwice function parameter))

def fillInOrder (count : Nat) (arguments : List Value) : Slots :=
  let given := arguments.take count
  ⟨given.map some ++ List.replicate (count - given.length) none, (arguments.drop count).reverse⟩

def firstMissing? : List Parameter → List (Option Value) → Option String
  | parameter :: parameters, slot :: slots =>
    if slot.isNone then some parameter.symbol.name else firstMissing? parameters slots
  | _, _ => none

def checkComplete (function : String) (parameters : List Parameter) (rest : Option Symbol)
    (named : Bool) (slots : Slots) : Except Error Unit := do
  let arity := Function.arityOf parameters rest
  if !slots.surplus.isEmpty && rest.isNone then arity.check function slots.count
  match firstMissing? parameters slots.filled with
  | none => return ()
  | some parameter =>
    if !named then arity.check function slots.count
    throw (.runtime (.missingArgument function parameter))

def checkKinds (store : Store) (function : String) :
    List Parameter → List (Option Value) → Except Error (List (Symbol × Value))
  | parameter :: parameters, some value :: slots =>
    let kind := store.kindOf value
    match parameter.kind with
    | some expected =>
      if kind.assignableTo expected then
        (checkKinds store function parameters slots).map ((parameter.symbol, value) :: ·)
      else .error (.type (.parameterKind function parameter.symbol.name expected kind))
    | none => (checkKinds store function parameters slots).map ((parameter.symbol, value) :: ·)
  | _, _ => .ok []

/-- What a call binds: one value for each parameter in order, and the arguments left over. -/
structure BoundArguments where
  values : List (Symbol × Value)
  surplus : List Value
  deriving Repr

def bindArguments (store : Store) (function : String) (parameters : List Parameter)
    (rest : Option Symbol) (arguments : List Value) : Except Error BoundArguments := do
  let named := arguments.any (namesParameter parameters)
  let slots ←
    if named then fillNamed function parameters arguments (.empty parameters.length)
    else pure (fillInOrder parameters.length arguments)
  checkComplete function parameters rest named slots
  let values ← checkKinds store function parameters slots.filled
  return ⟨values, slots.surplus.reverse⟩

end StackLisp
