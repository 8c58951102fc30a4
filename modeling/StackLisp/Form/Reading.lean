import StackLisp.Form.Compile
import StackLisp.Form.Infix
import StackLisp.Form.Special
import StackLisp.Machine.Host

/-!
From values to forms. Values are read from the outside in and, with few exceptions, from left to
right; reading has effects, since it enters names into the symbol table, runs the expanders of
forms, and gives functions their places in the store.

An expansion is read again in place of the form that it came out of, so there is no bound on how
deep reading goes, and it is given fuel. The parts of a value are read by the function `again`,
which stands for reading with one unit less.
-/

namespace StackLisp

/-- What a value is read as: a form to evaluate, or a template of a value to build. -/
inductive Reading where
  | form
  | template
  deriving DecidableEq, Repr

structure Context where
  inLoop : Bool
  /-- how many expansions the value came out of -/
  expansions : Nat
  deriving DecidableEq, Repr

namespace Context

def start : Context := ⟨false, 0⟩

def insideLoop (context : Context) : Context := { context with inLoop := true }

def insideFunction (context : Context) : Context := { context with inLoop := false }

def insideExpansion (context : Context) : Context :=
  { context with expansions := context.expansions + 1 }

def expansionLimit : Nat := 256

end Context

namespace Form

open Machine

abbrev ReadPart := Reading → Context → Value → Machine Form

def refuse {α : Type} (problem : CompileProblem) : Machine α := fail (.compile problem)

variable (again : ReadPart) (context : Context)

def readAll (values : List Value) : Machine (List Form) := values.mapM (again .form context)

def readQuote : List Value → Machine Form
  | [] => refuse .quoteWithoutArgument
  | first :: later => return .sequence (.constant first) (later.map .constant)

def readConditions (stopsOn : Bool) : List Value → Machine Form
  | [] => return .constant (.bool !stopsOn)
  | [last] => again .form context last
  | first :: later => do
    let later ← readConditions stopsOn later
    return .settle stopsOn (← again .form context first) later

/-- Tests with their values and a default behind them, read from the default back. -/
def readCases : List Value → Machine Form
  | [] => refuse .condWithoutDefault
  | [default] => again .form context default
  | test :: value :: later => do
    let otherwise ← readCases later
    let test ← again .form context test
    let value ← again .form context value
    return .choose test value otherwise

def readBinding (name : String) : List Value → Machine (Symbol × Form)
  | [target, value] =>
    match bindable? target with
    | some symbol => return (symbol, ← again .form context value)
    | none => refuse (.expectedBinding name)
  | _ => refuse (.expectedBinding name)

def readChoice : List Value → Machine Form
  | [test, whenTrue] => do
    let test ← again .form context test
    let whenTrue ← again .form context whenTrue
    return .choose test whenTrue nil
  | [test, whenTrue, whenFalse] => do
    let test ← again .form context test
    let whenTrue ← again .form context whenTrue
    let whenFalse ← again .form context whenFalse
    return .choose test whenTrue whenFalse
  | _ => refuse .ifShape

def readFunction (name : String) (parameters : Value) (contents : List Value) :
    Machine FunctionRef := do
  let (parameters, rest) ← ask fun store => parameterList store parameters
  let forms ← readAll again context.insideFunction contents
  let code := (functionCode (body forms)).toArray
  onStore fun store => store.newFunction ⟨name, .compiled parameters rest code []⟩

def readAnonymous : List Value → Machine Form
  | .symbol name :: parameters :: contents =>
    return .function (← readFunction again context name.name parameters contents)
  | parameters :: contents =>
    return .function (← readFunction again context "__anon" parameters contents)
  | [] => refuse (.expectedFunction "fn")

def readNamed : List Value → Machine Form
  | .symbol name :: parameters :: contents =>
    return .define name (.function (← readFunction again context name.name parameters contents))
  | _ => refuse (.expectedFunction "defn")

def readPairs : List Value → Machine (List Symbol × List Form)
  | target :: value :: later => do
    match bindable? target with
    | some symbol =>
      let value ← again .form context value
      let (symbols, values) ← readPairs later
      return (symbol :: symbols, value :: values)
    | none => refuse (.letTarget (← readStore fun store => store.text target))
  | _ => return ([], [])

def readBind : List Value → Machine Form
  | .array ref :: contents => do
    let bindings ← readStore fun store => (store.array ref).toList
    if bindings.length % 2 ≠ 0 then refuse .letUnpaired
    let (symbols, values) ← readPairs again context bindings
    return .bind symbols values (body (← readAll again context contents))
  | _ => refuse .letWithoutBindings

def readWhile : List Value → Machine Form
  | test :: contents => do
    let test ← again .form context test
    return .whileLoop test (← readAll again context.insideLoop contents)
  | [] => refuse .whileWithoutTest

def readFor : List Value → Machine Form
  | .array ref :: contents => do
    match ← readStore fun store => (store.array ref).toList with
    | [start, test, step] =>
      let start ← again .form context start
      let test ← again .form context test
      let contents ← readAll again context.insideLoop contents
      let step ← again .form context.insideLoop step
      return .forLoop start test step contents
    | _ => refuse .forHeader
  | _ => refuse .forHeader

def readExit (exit : Exit) : List Value → Machine Form
  | [] => if context.inLoop then return .leave exit else refuse (.exitOutsideLoop exit.name)
  | _ => refuse (.exitWithArguments exit.name)

def readTemplate : List Value → Machine Form
  | [template] => again .template context template
  | _ => refuse .templateCount

def readInfix : List Value → Machine Form
  | [.array ref] => do
    match ← readStore fun store => (store.array ref).toList with
    | [] => return nil
    | items =>
      let (tree, extra) ← Machine.ofExcept ((InfixTree.ofItems items).mapError Error.compile)
      match extra with
      | some item => refuse (.infixUnexpected (← readStore fun store => store.text item))
      | none => again .form context (← onStore fun store => tree.toValue store)
  | _ => refuse .infixShape

/-- An expander works from the moment it is read. -/
def readExpander : List Value → Machine Form
  | target :: parameters :: contents => do
    match bindable? target with
    | some name =>
      let ref ← readFunction again context name.name parameters contents
      log .debug fun _ => s!"registered macro {name.name}"
      onStore fun store => ((), store.addExpander name.id ref)
      return nil
    | none => refuse (.expectedFunction "defmac")
  | _ => refuse (.expectedFunction "defmac")

def readSpecial (name : String) (special : Special) (arguments : List Value) : Machine Form :=
  match special with
  | .quote => readQuote arguments
  | .conjunction => readConditions again context false arguments
  | .disjunction => readConditions again context true arguments
  | .cond => readCases again context arguments
  | .define => do
    let (symbol, value) ← readBinding again context name arguments
    return .define symbol value
  | .assign => do
    let (symbol, value) ← readBinding again context name arguments
    return .assign symbol value
  | .choose => readChoice again context arguments
  | .sequence => return body (← readAll again context arguments)
  | .function => readAnonymous again context arguments
  | .namedFunction => readNamed again context arguments
  | .bind => readBind again context arguments
  | .whileLoop => readWhile again context arguments
  | .forLoop => readFor again context arguments
  | .leave exit => readExit context exit arguments
  | .template => readTemplate again context arguments
  | .infixBlock => readInfix again context arguments
  | .expander => readExpander again context arguments

/-- A form with a symbol at its head: a special form, one to expand, or a call. -/
def readNamedForm (perform : Perform) (symbol : Symbol) (arguments : List Value) :
    Machine Form := do
  match Special.ofName? symbol.name with
  | some special => readSpecial again context symbol.name special arguments
  | none =>
    match ← readStore fun store => store.expander? symbol.id with
    | some expander =>
      if Context.expansionLimit ≤ context.expansions then
        refuse (.expandsTooDeeply symbol.name)
      let expansion ← expandWith perform expander arguments
      again .form context.insideExpansion expansion
    | none =>
      if ← readStore fun store => store.isBuilder symbol.id then
        return .call symbol (arguments.map .constant)
      else return .call symbol (← readAll again context arguments)

def readDispatch (callee : Value) (arguments : List Value) : Machine Form := do
  let callee ← again .form context callee
  return .dispatch callee (← readAll again context arguments)

/-- A value as a form: symbols are variables unless they stand for themselves, lists are special
forms or calls, arrays are built anew, and all else is constant. -/
def readForm (perform : Perform) (value : Value) : Machine Form := do
  match value with
  | .symbol symbol =>
    return if symbol.colon || symbol.isSigil then .constant value else .variable symbol
  | .array ref =>
    let items ← readAll again context (← readStore fun store => (store.array ref).toList)
    return .call (← intern "array") items
  | .pair _ _ _ =>
    match value.items? with
    | none => refuse (.dottedList (← readStore fun store => store.text value))
    | some [] => return nil
    | some (head :: arguments) =>
      match bindable? head with
      | some symbol => readNamedForm again context perform symbol arguments
      | none => readDispatch again context head arguments
  | _ => return .constant value

def readSegment (wrap : Symbol) (item : Value) : Machine Form := do
  match item.items?.bind (unwrapped? "unquote-splicing") with
  | some spliced => again .form context spliced
  | none => return .call wrap [← again .template context item]

/-- A value as a template: lists and arrays are joined from their parts when the template is
evaluated, unquoted parts are forms, and all else stands for itself. -/
def readTemplateOf (value : Value) : Machine Form := do
  match value with
  | .pair _ _ _ =>
    match value.items? with
    | none => return .constant value
    | some items =>
      match unwrapped? "unquote" items with
      | some inner => again .form context inner
      | none =>
        let wrap ← intern "list"
        let segments ← items.mapM (readSegment again context wrap)
        return .call (← intern "concat") segments
  | .array ref =>
    let items ← readStore fun store => (store.array ref).toList
    let wrap ← intern "array"
    let segments ← items.mapM (readSegment again context wrap)
    return .call (← intern "concat") (.call wrap [] :: segments)
  | _ => return .constant value

def read (perform : Perform) : Nat → ReadPart
  | 0, _, _, _ => exhausted
  | fuel + 1, .form, context, value => readForm (read perform fuel) context perform value
  | fuel + 1, .template, context, value => readTemplateOf (read perform fuel) context value

def readProgram (perform : Perform) (fuel : Nat) (values : List Value) : Machine (List Form) :=
  readAll (read perform fuel) .start values

end Form

end StackLisp
