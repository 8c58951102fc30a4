import StackLisp.Form
import StackLisp.Store.Print

/-!
The forms that are told by the name at their head, and what can be said of their shape before
anything inside of them is read.
-/

namespace StackLisp

inductive Special where
  | quote
  | conjunction
  | disjunction
  | cond
  | define
  | assign
  | choose
  | sequence
  | function
  | namedFunction
  | bind
  | whileLoop
  | forLoop
  | leave (exit : Exit)
  | template
  | infixBlock
  | expander
  deriving DecidableEq, Repr

def Special.ofName? (name : String) : Option Special :=
  match name with
  | "quote" => some .quote
  | "and" => some .conjunction
  | "or" => some .disjunction
  | "cond" => some .cond
  | "def" | ":=" => some .define
  | "set" | "=" => some .assign
  | "if" => some .choose
  | "begin" => some .sequence
  | "fn" => some .function
  | "defn" => some .namedFunction
  | "let" | "let*" => some .bind
  | "while" => some .whileLoop
  | "for" => some .forLoop
  | "break" => some (.leave .leaveLoop)
  | "continue" => some (.leave .nextRound)
  | "syntax-quote" => some .template
  | "infix" => some .infixBlock
  | "defmac" => some .expander
  | _ => none

def unwrapped? (name : String) : List Value → Option Value
  | [.symbol head, inner] => if head.name == name then some inner else none
  | _ => none

/-- A symbol that may be bound: one that is written without a colon. -/
def bindable? : Value → Option Symbol
  | .symbol symbol => if symbol.colon then none else some symbol
  | _ => none

/-- Parameters in a row. A colon announces the kind of its parameter; a name behind `&` takes all
arguments that are left over. -/
def readParameters (store : Store) :
    List Value → Except CompileProblem (List Parameter × Option Symbol)
  | [] => .ok ([], none)
  | .symbol symbol :: later =>
    if symbol.name == "&" then
      match later with
      | [last] =>
        match bindable? last with
        | some rest => .ok ([], some rest)
        | none => .error .restNotLast
      | _ => .error .restNotLast
    else if symbol.colon then
      match later with
      | .symbol kind :: later =>
        match Kind.ofName? kind.name with
        | some kind =>
          (readParameters store later).map fun (parameters, rest) =>
            (⟨symbol.plain, some kind⟩ :: parameters, rest)
        | none => .error (.unknownKind kind.name)
      | _ => .error (.parameterWithoutKind symbol.name)
    else
      (readParameters store later).map fun (parameters, rest) =>
        (⟨symbol, none⟩ :: parameters, rest)
  | other :: _ => .error (.badParameter (store.text other))

def parameterList (store : Store) (value : Value) :
    Except Error (List Parameter × Option Symbol) :=
  match value with
  | .array _ | .nil | .pair _ _ _ => do
    (readParameters store (← store.sequenceItems value)).mapError .compile
  | other => .error (.compile (.notParameterList (store.text other)))

end StackLisp
