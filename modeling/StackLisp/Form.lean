import StackLisp.Code

/-!
Forms: the small language that programs are brought into before they become instructions. Macros
are expanded, special forms are told apart from calls, and what can be said by other forms has no
form of its own: `cond` is a chain of `choose`, array literals and templates are calls.
-/

namespace StackLisp

inductive Form where
  | constant (value : Value)
  | variable (symbol : Symbol)
  /-- the arguments from left to right, then what the symbol is bound to is called -/
  | call (symbol : Symbol) (arguments : List Form)
  /-- the function, then the arguments, then the call -/
  | dispatch (callee : Form) (arguments : List Form)
  /-- each in turn, for the value of the last one -/
  | sequence (first : Form) (later : List Form)
  | define (symbol : Symbol) (value : Form)
  | assign (symbol : Symbol) (value : Form)
  | choose (test whenTrue whenFalse : Form)
  /-- the value of `first` if it counts as `stopsOn`, else that of `second` -/
  | settle (stopsOn : Bool) (first second : Form)
  /-- binds one after the other in a new scope -/
  | bind (symbols : List Symbol) (values : List Form) (body : Form)
  | whileLoop (test : Form) (body : List Form)
  /-- a loop in a scope of its own; `step` ends each round -/
  | forLoop (start test step : Form) (body : List Form)
  | leave (exit : Exit)
  | function (ref : FunctionRef)
  deriving Repr, Inhabited

namespace Form

def nil : Form := .constant .nil

/-- A body: its value is that of its last form, or nil. -/
def body : List Form → Form
  | [] => nil
  | first :: later => .sequence first later

end Form

end StackLisp
