import StackLisp.Machine.World

/-!
What native functions may ask of the machine that calls them, and what a host brings with it.
-/

namespace StackLisp

/-- Work that starts a run of its own. -/
inductive Request where
  | apply (function : Value) (arguments : List Value)
  /-- compile forms as the program, without running it -/
  | load (forms : List Value)
  | run
  | evaluate (forms : List Value)
  deriving Repr, Inhabited

abbrev Perform := Request → Machine Value

/-- What a native function of the host comes to. A panic is no error yet: it becomes one, with the
name of the function, where the function was called. -/
inductive Answer where
  | value (value : Value)
  | panic (message : String)
  deriving Repr, Inhabited

/-- The native functions of a host, by their keys. -/
structure Host where
  call : Nat → Perform → (name : String) → (arguments : List Value) → Machine Answer

def Host.none : Host := ⟨fun _ _ _ _ => pure (.value .nil)⟩

def expandWith (perform : Perform) (expander : FunctionRef) (arguments : List Value) :
    Machine Value :=
  Machine.inNested (perform (.apply (.function expander) arguments))

end StackLisp
