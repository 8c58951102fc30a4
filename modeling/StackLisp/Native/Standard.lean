import StackLisp.Machine.Host
import StackLisp.Native.Field
import StackLisp.Native.Number

/-!
The functions that every interpreter has: their names, how many arguments each takes, and what each
does. A call comes here only with a number of arguments that its function takes.
-/

namespace StackLisp

namespace Standard

/-- All of them, in the order in which they enter the symbol table. -/
def all : List Standard :=
  [.add, .sub, .mul, .div, .rem, .pow, .equal, .notEqual, .less, .lessEqual, .greater,
    .greaterEqual, .not, .list, .cons, .first, .rest, .length, .append, .concat, .array,
    .arrayGet, .arraySet, .record, .recordGet, .recordSet, .recordDelete, .keys, .pointer, .deref,
    .text, .print, .printLine, .kindName, .symbolNumber, .freshSymbol, .apply, .map, .isNil,
    .isEmpty, .isList, .isArray, .isNumber, .isText, .isSymbol, .isRecord, .isFunction, .eval,
    .raise, .expand]

def name : Standard → String
  | .add => "+"
  | .sub => "-"
  | .mul => "*"
  | .div => "/"
  | .rem => "%"
  | .pow => "**"
  | .equal => "=="
  | .notEqual => "!="
  | .less => "<"
  | .lessEqual => "<="
  | .greater => ">"
  | .greaterEqual => ">="
  | .not => "not"
  | .list => "list"
  | .cons => "cons"
  | .first => "first"
  | .rest => "rest"
  | .length => "len"
  | .append => "append"
  | .concat => "concat"
  | .array => "array"
  | .arrayGet => "aget"
  | .arraySet => "aset"
  | .record => "hash"
  | .recordGet => "hget"
  | .recordSet => "hset"
  | .recordDelete => "hdel"
  | .keys => "keys"
  | .pointer => "ptr"
  | .deref => "deref"
  | .text => "str"
  | .print => "print"
  | .printLine => "println"
  | .kindName => "type?"
  | .symbolNumber => "symnum"
  | .freshSymbol => "gensym"
  | .apply => "apply"
  | .map => "map"
  | .isNil => "null?"
  | .isEmpty => "empty?"
  | .isList => "list?"
  | .isArray => "array?"
  | .isNumber => "number?"
  | .isText => "string?"
  | .isSymbol => "symbol?"
  | .isRecord => "hash?"
  | .isFunction => "fn?"
  | .eval => "eval"
  | .raise => "error"
  | .expand => "macexpand"

def arity : Standard → Arity
  | .add | .mul | .list | .concat | .array | .record | .text | .print | .printLine
  | .freshSymbol | .raise => .any
  | .sub | .append => .atLeast 1
  | .div | .recordGet => .atLeast 2
  | .rem | .pow | .equal | .notEqual | .less | .lessEqual | .greater | .greaterEqual
  | .cons | .arrayGet | .recordDelete | .apply | .map => .exactly 2
  | .arraySet | .recordSet => .exactly 3
  | .not | .first | .rest | .length | .keys | .pointer | .deref | .kindName | .symbolNumber
  | .isNil | .isEmpty | .isList | .isArray | .isNumber | .isText | .isSymbol | .isRecord
  | .isFunction | .eval | .expand => .exactly 1

end Standard

namespace Native

open Machine

def mapItems (perform : Perform) (function : Value) : List Value → Machine (List Value)
  | [] => return []
  | item :: later => do
    let result ← perform (.apply function [item])
    return result :: (← mapItems perform function later)

def map (perform : Perform) (function sequence : Value) : Machine Value := do
  let items ← ask fun store => store.sequenceItems sequence
  let results ← mapItems perform function items
  match sequence with
  | .array _ => newArray results
  | _ => newList results

/-- Rewrites a form once, if its head has an expander. -/
def expand (perform : Perform) (form : Value) : Machine Value := do
  match form.items? with
  | some (.symbol head :: arguments) =>
    match ← readStore fun store => store.expander? head.id with
    | some expander => expandWith perform expander arguments
    | none => return form
  | _ => return form

def freshSymbol (stem : Value) : Machine Value := do
  let stem ←
    match stem with
    | .nil => pure "__gensym"
    | other => readStore fun store => store.plainText other
  return .symbol (← onStore fun store => store.freshSymbol stem)

def symbolNumber (native : String) : Value → Machine Value
  | .symbol symbol => return .int (Int64.ofNat symbol.id)
  | other => wrongArgument native "a symbol" other

def joined (separator : String) (values : List Value) : Machine String :=
  readStore fun store => store.joined separator values

def truth (b : Bool) : Machine Value := return .bool b

end Native

open Machine

def Standard.call (native : Standard) (perform : Perform) (arguments : List Value) :
    Machine Value :=
  let name := native.name
  let argument (index : Nat) : Value := arguments.getD index .nil
  let calculated (op : NumberOp) (neutral : Value) : Machine Value :=
    ask fun store => calculateAll store name op neutral arguments
  let compared (holds : Ordering → Bool) : Machine Value :=
    ask fun store => compareBy store name holds (argument 0) (argument 1)
  match native with
  | .add => calculated .add (.int 0)
  | .sub =>
    match arguments with
    | [only] => ask fun store => calculate store name .sub (.int 0) only
    | _ => calculated .sub .nil
  | .mul => calculated .mul (.int 1)
  | .div => calculated .div .nil
  | .rem => ask fun store => calculate store name .rem (argument 0) (argument 1)
  | .pow => ask fun store => power store name (argument 0) (argument 1)
  | .equal => readStore fun store => .bool (looselyEqual store (argument 0) (argument 1))
  | .notEqual => readStore fun store => .bool !(looselyEqual store (argument 0) (argument 1))
  | .less => compared (· == .lt)
  | .lessEqual => compared (· != .gt)
  | .greater => compared (· == .gt)
  | .greaterEqual => compared (· != .lt)
  | .not => Native.truth !(argument 0).isTruthy
  | .list => newList arguments
  | .cons => onStore fun store => store.newPair (argument 0) (argument 1)
  | .first => Native.first name (argument 0)
  | .rest => Native.rest name (argument 0)
  | .length => Native.length name (argument 0)
  | .append => Native.append name (argument 0) (arguments.drop 1)
  | .concat => Native.concat name arguments
  | .array => newArray arguments
  | .arrayGet => Native.arrayGet name (argument 0) (argument 1)
  | .arraySet => Native.arraySet name (argument 0) (argument 1) (argument 2)
  | .record => Native.newRecord name arguments
  | .recordGet => Native.getField name (argument 0) (argument 1) arguments[2]?
  | .recordSet => Native.setField name (argument 0) (argument 1) (argument 2)
  | .recordDelete => Native.deleteField name (argument 0) (argument 1)
  | .keys => Native.keys name (argument 0)
  | .pointer => onStore fun store => store.newPointer (argument 0)
  | .deref => Native.deref name (argument 0)
  | .text => do return .text (← Native.joined "" arguments)
  | .print => do
    Machine.print (← Native.joined " " arguments)
    return .nil
  | .printLine => do
    Machine.print ((← Native.joined " " arguments) ++ "\n")
    return .nil
  | .kindName => readStore fun store => .text (store.kindOf (argument 0)).name
  | .symbolNumber => Native.symbolNumber name (argument 0)
  | .freshSymbol => Native.freshSymbol (argument 0)
  | .apply => do
    let items ← ask fun store => store.sequenceItems (argument 1)
    perform (.apply (argument 0) items)
  | .map => Native.map perform (argument 0) (argument 1)
  | .isNil => Native.truth (argument 0 == .nil)
  | .isEmpty => do return .bool (← Native.isEmpty (argument 0))
  | .isList => Native.truth (argument 0).isList
  | .isArray => Native.truth (argument 0 matches .array _)
  | .isNumber => Native.truth (argument 0).isNumber
  | .isText => Native.truth (argument 0 matches .text _)
  | .isSymbol => Native.truth (argument 0 matches .symbol _)
  | .isRecord => Native.truth (argument 0 matches .record _)
  | .isFunction => Native.truth (argument 0 matches .function _)
  | .eval => inNested (perform (.evaluate [argument 0]))
  | .raise => do fail (.runtime (.raised (← Native.joined " " arguments)))
  | .expand => Native.expand perform (argument 0)

end StackLisp
