import Mathlib.Data.List.Forall2
import StackLisp.Form.Special
import StackLisp.Proofs.Meaning.Expression
import StackLisp.Proofs.Symbol.Table

/-!
Which values are the source of an expression, and which of them expand no macros and call no
builders. Both look at arrays in the store, at what is known there to expand, and at the functions
that have been given a place for the source of a function.
-/

namespace StackLisp

namespace Value

def isConstant : Value → Bool
  | .symbol s => s.colon || s.isSigil
  | .array _ => false
  | .pair _ _ _ => false
  | _ => true

def named? (value : Value) : Option (Symbol × List Value) :=
  match value.items? with
  | some (head :: arguments) => (bindable? head).map fun symbol => (symbol, arguments)
  | _ => none

def dispatched? (value : Value) : Option (Value × List Value) :=
  match value.items? with
  | some (head :: arguments) => if (bindable? head).isSome then none else some (head, arguments)
  | _ => none

def special? (value : Value) : Option (Special × List Value) :=
  value.named?.bind fun (name, arguments) =>
    (Special.ofName? name.name).map fun special => (special, arguments)

def called? (value : Value) : Option (Symbol × List Value) :=
  value.named?.bind fun (name, arguments) =>
    if (Special.ofName? name.name).isSome then none else some (name, arguments)

end Value

/-- The source of an expression, in a store that has its arrays and its functions. -/
inductive Means (store : Store) : Value → Expression → Prop
  | constant {value} : value.isConstant = true → Means store value (.constant value)
  | variable {symbol} :
    symbol.colon = false → symbol.isSigil = false → Means store (.symbol symbol) (.variable symbol)
  | array {ref id contents} :
    store.symbols.idOf? "array" = some id →
    List.Forall₂ (Means store) (store.array ref).toList contents →
    Means store (.array ref) (.call ⟨"array", id, false⟩ contents)
  | quote {value first later} :
    value.special? = some (.quote, first :: later) → Means store value (.quote first later)
  | conjunction {value operands expressions} :
    value.special? = some (.conjunction, operands) →
    List.Forall₂ (Means store) operands expressions →
    Means store value (.conditions false expressions)
  | disjunction {value operands expressions} :
    value.special? = some (.disjunction, operands) →
    List.Forall₂ (Means store) operands expressions →
    Means store value (.conditions true expressions)
  | cond {value parts expressions} :
    value.special? = some (.cond, parts) → parts.length % 2 = 1 →
    List.Forall₂ (Means store) parts expressions → Means store value (.cases expressions)
  | define {value target symbol source expression} :
    value.special? = some (.define, [target, source]) → bindable? target = some symbol →
    Means store source expression → Means store value (.define symbol expression)
  | assign {value target symbol source expression} :
    value.special? = some (.assign, [target, source]) → bindable? target = some symbol →
    Means store source expression → Means store value (.assign symbol expression)
  | choose {value first second third test whenTrue whenFalse} :
    value.special? = some (.choose, [first, second, third]) → Means store first test →
    Means store second whenTrue → Means store third whenFalse →
    Means store value (.choose test whenTrue whenFalse)
  | chooseTrue {value first second test whenTrue} :
    value.special? = some (.choose, [first, second]) → Means store first test →
    Means store second whenTrue → Means store value (.choose test whenTrue (.constant .nil))
  | block {value contents expressions} :
    value.special? = some (.sequence, contents) → List.Forall₂ (Means store) contents expressions →
    Means store value (.block expressions)
  | function {value symbol list contents parameters rest expressions ref} :
    value.special? = some (.function, .symbol symbol :: list :: contents) →
    parameterList store list = .ok (parameters, rest) →
    List.Forall₂ (Means store) contents expressions →
    store.functions[ref]? = some ⟨symbol.name, .compiled parameters rest
      (Form.functionCode (Expression.block expressions).form).toArray []⟩ →
    Means store value (.function ref)
  | anonymous {value list contents parameters rest expressions ref} :
    value.special? = some (.function, list :: contents) →
    (∀ symbol, list ≠ .symbol symbol) →
    parameterList store list = .ok (parameters, rest) →
    List.Forall₂ (Means store) contents expressions →
    store.functions[ref]? = some ⟨"__anon", .compiled parameters rest
      (Form.functionCode (Expression.block expressions).form).toArray []⟩ →
    Means store value (.function ref)
  | namedFunction {value symbol list contents parameters rest expressions ref} :
    value.special? = some (.namedFunction, .symbol symbol :: list :: contents) →
    parameterList store list = .ok (parameters, rest) →
    List.Forall₂ (Means store) contents expressions →
    store.functions[ref]? = some ⟨symbol.name, .compiled parameters rest
      (Form.functionCode (Expression.block expressions).form).toArray []⟩ →
    Means store value (.define symbol (.function ref))
  | bind {value ref contents symbols values expressions} {pairs : List (Value × Value)} :
    value.special? = some (.bind, .array ref :: contents) →
    (store.array ref).toList = pairs.flatMap (fun pair => [pair.1, pair.2]) →
    pairs.map (fun pair => bindable? pair.1) = symbols.map some →
    List.Forall₂ (Means store) (pairs.map Prod.snd) values →
    List.Forall₂ (Means store) contents expressions →
    Means store value (.bind symbols values expressions)
  | whileLoop {value source test contents expressions} :
    value.special? = some (.whileLoop, source :: contents) → Means store source test →
    List.Forall₂ (Means store) contents expressions → Means store value (.whileLoop test expressions)
  | forLoop {value ref first second third start test step contents expressions} :
    value.special? = some (.forLoop, .array ref :: contents) →
    (store.array ref).toList = [first, second, third] → Means store first start →
    Means store second test → Means store third step →
    List.Forall₂ (Means store) contents expressions →
    Means store value (.forLoop start test step expressions)
  | leave {value exit} :
    value.special? = some (.leave exit, []) → Means store value (.leave exit)
  | call {value symbol arguments expressions} :
    value.called? = some (symbol, arguments) →
    List.Forall₂ (Means store) arguments expressions → Means store value (.call symbol expressions)
  | dispatch {value head callee arguments expressions} :
    value.dispatched? = some (head, arguments) → Means store head callee →
    List.Forall₂ (Means store) arguments expressions →
    Means store value (.dispatch callee expressions)

def everySecond : List Value → List Value
  | _ :: second :: later => second :: everySecond later
  | _ => []

namespace Special

def isMacro : Special → Bool
  | .template => true
  | .infixBlock => true
  | .expander => true
  | _ => false

def parts (store : Store) : Special → List Value → List Value
  | .quote, _ => []
  | .leave _, _ => []
  | .define, arguments => arguments.drop 1
  | .assign, arguments => arguments.drop 1
  | .function, .symbol _ :: _ :: contents => contents
  | .function, _ :: contents => contents
  | .namedFunction, arguments => arguments.drop 2
  | .bind, .array ref :: contents => everySecond (store.array ref).toList ++ contents
  | .forLoop, .array ref :: contents => (store.array ref).toList ++ contents
  | _, arguments => arguments

end Special

namespace Value

/-- Whether a list with a name at its head is expanded, or is a form that is there for macros, or
calls a builder. -/
def namesMacro (store : Store) (name : Symbol) : Bool :=
  match Special.ofName? name.name with
  | some special => special.isMacro
  | none => (store.expander? name.id).isSome || store.isBuilder name.id

def usesMacro (store : Store) (value : Value) : Bool :=
  value.named?.any fun (name, _) => namesMacro store name

def namedParts (store : Store) (name : Symbol) (arguments : List Value) : List Value :=
  match Special.ofName? name.name with
  | some special => special.parts store arguments
  | none => arguments

def parts (store : Store) (value : Value) : List Value :=
  match value with
  | .array ref => (store.array ref).toList
  | _ =>
    match value.named?, value.dispatched? with
    | some (name, arguments), _ => namedParts store name arguments
    | none, some (head, arguments) => head :: arguments
    | none, none => []

theorem parts_of_named {store : Store} {value : Value} {name : Symbol} {arguments : List Value}
    (shape : value.named? = some (name, arguments)) :
    value.parts store = namedParts store name arguments := by
  cases value with
  | pair mark head tail => simp only [parts, shape]
  | _ => cases shape

theorem parts_of_dispatched {store : Store} {value head : Value} {arguments : List Value}
    (notNamed : value.named? = none) (shape : value.dispatched? = some (head, arguments)) :
    value.parts store = head :: arguments := by
  cases value with
  | pair mark head tail => simp only [parts, notNamed, shape]
  | _ => cases shape

theorem special_of_named {value : Value} {name : Symbol} {special : Special}
    {arguments : List Value} (shape : value.named? = some (name, arguments))
    (known : Special.ofName? name.name = some special) :
    value.special? = some (special, arguments) := by
  simp only [special?, shape, Option.bind_some, known, Option.map_some]

theorem called_of_named {value : Value} {name : Symbol} {arguments : List Value}
    (shape : value.named? = some (name, arguments)) (unknown : Special.ofName? name.name = none) :
    value.called? = some (name, arguments) := by
  simp only [called?, shape, Option.bind_some, unknown, Option.isSome_none, Bool.false_eq_true,
    ↓reduceIte]

theorem named_of_items {value head : Value} {arguments : List Value}
    (items : value.items? = some (head :: arguments)) :
    value.named? = (bindable? head).map fun name => (name, arguments) := by
  rw [named?, items]

theorem dispatched_of_items {value head : Value} {arguments : List Value}
    (items : value.items? = some (head :: arguments)) (notNamed : bindable? head = none) :
    value.dispatched? = some (head, arguments) := by
  rw [dispatched?, items]
  simp only [notNamed]
  rfl

end Value

/-- Forms that use no macros and no builders, and whose parts do not. -/
inductive MacroFree (store : Store) : Value → Prop
  | intro {value} : value.usesMacro store = false →
    (∀ part ∈ value.parts store, MacroFree store part) → MacroFree store value

end StackLisp
