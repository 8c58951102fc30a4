import StackLisp.Value

/-!
Scopes: bindings from symbols to values, in the order of the symbols' numbers.
-/

namespace StackLisp

structure Scope where
  name : String
  /-- opened by a call; the search for a binding in the running call ends here -/
  isCall : Bool
  bindings : List (Nat × Value)
  deriving Repr, Inhabited

/-- Binds a number among bindings in ascending order. -/
def insertBinding (id : Nat) (value : Value) : List (Nat × Value) → List (Nat × Value)
  | [] => [(id, value)]
  | (other, old) :: later =>
    if other < id then (other, old) :: insertBinding id value later
    else if other = id then (id, value) :: later
    else (id, value) :: (other, old) :: later

namespace Scope

def empty (name : String) (isCall : Bool) : Scope := ⟨name, isCall, []⟩

def lookup (scope : Scope) (id : Nat) : Option Value := scope.bindings.lookup id

def insert (scope : Scope) (id : Nat) (value : Value) : Scope :=
  { scope with bindings := insertBinding id value scope.bindings }

def size (scope : Scope) : Nat := scope.bindings.length

end Scope

end StackLisp
