import StackLisp.Store

/-!
Infix blocks: operands with operators between them, grouped by the precedence of the operators.
An operator takes operands to its right that bind more tightly, or equally tightly if its level
groups to the right.
-/

namespace StackLisp

structure Operator where
  level : Nat
  groupsRight : Bool
  deriving DecidableEq, Repr

/-- The operator that a value stands for, if it is a symbol of one of the seven levels. -/
def operator? (value : Value) : Option Operator :=
  match value with
  | .symbol symbol =>
    if symbol.colon then none
    else
      match symbol.name with
      | "=" | ":=" => some ⟨1, true⟩
      | "or" => some ⟨2, false⟩
      | "and" => some ⟨3, false⟩
      | "==" | "!=" | "<" | "<=" | ">" | ">=" => some ⟨4, false⟩
      | "+" | "-" => some ⟨5, false⟩
      | "*" | "/" | "%" => some ⟨6, false⟩
      | "**" => some ⟨7, true⟩
      | _ => none
  | _ => none

inductive InfixTree where
  | operand (value : Value)
  | apply (operator : Value) (left right : InfixTree)
  deriving DecidableEq, Repr

namespace InfixTree

mutual

/-- An operand, and the operators behind it whose level is at least `least`; what is left over
comes second. `fuel` bounds the number of items. -/
def climb (fuel least : Nat) (items : List Value) :
    Except CompileProblem (InfixTree × List Value) :=
  match fuel, items with
  | 0, _ => .error .infixMissingOperand
  | _ + 1, [] => .error .infixMissingOperand
  | fuel + 1, first :: rest => climbFrom fuel least (.operand first) rest

/-- Goes on behind a tree that is complete so far. -/
def climbFrom (fuel least : Nat) (left : InfixTree) (items : List Value) :
    Except CompileProblem (InfixTree × List Value) :=
  match fuel, items with
  | _, [] => .ok (left, [])
  | 0, items => .ok (left, items)
  | fuel + 1, item :: rest =>
    match operator? item with
    | none => .ok (left, item :: rest)
    | some operator =>
      if operator.level < least then .ok (left, item :: rest)
      else
        let next := if operator.groupsRight then operator.level else operator.level + 1
        match climb fuel next rest with
        | .error problem => .error problem
        | .ok (right, rest) => climbFrom fuel least (.apply item left right) rest

end

def ofItems (items : List Value) : Except CompileProblem (InfixTree × Option Value) :=
  match climb (2 * items.length + 1) 0 items with
  | .error problem => .error problem
  | .ok (tree, rest) => .ok (tree, rest.head?)

def toValue (store : Store) : InfixTree → Value × Store
  | .operand value => (value, store)
  | .apply operator left right =>
    let (left, store) := left.toValue store
    let (right, store) := right.toValue store
    store.newList [operator, left, right]

end InfixTree

end StackLisp
