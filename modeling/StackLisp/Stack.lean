/-!
Stacks: values, scopes and pending calls of a machine.
-/

namespace StackLisp

structure Stack (α : Type) where
  /-- from the top down -/
  elements : List α
  size : Nat
  size_eq : size = elements.length
  deriving DecidableEq, Repr

namespace Stack

variable {α : Type}

def empty : Stack α := ⟨[], 0, rfl⟩

instance : Inhabited (Stack α) := ⟨empty⟩

def isEmpty (stack : Stack α) : Bool := stack.size == 0

def push (stack : Stack α) (element : α) : Stack α :=
  ⟨element :: stack.elements, stack.size + 1, by simp [stack.size_eq]⟩

def top? (stack : Stack α) : Option α := stack.elements.head?

def pop? : Stack α → Option (α × Stack α)
  | ⟨element :: rest, size, size_eq⟩ => some (element, ⟨rest, size - 1, by simp [size_eq]⟩)
  | ⟨[], _, _⟩ => none

def drop (stack : Stack α) (count : Nat) : Stack α :=
  ⟨stack.elements.drop count, stack.size - count, by simp [stack.size_eq]⟩

/-- Takes the top `count` elements, lowest first. -/
def popMany? (stack : Stack α) (count : Nat) : Option (List α × Stack α) :=
  if count ≤ stack.size then some ((stack.elements.take count).reverse, stack.drop count)
  else none

def get? (stack : Stack α) (depth : Nat) : Option α := stack.elements[depth]?

def truncate (stack : Stack α) (count : Nat) : Stack α := stack.drop (stack.size - count)

end Stack

end StackLisp
