import StackLisp.Form.Compile

/-!
Expressions as trees, for a meaning that knows no instructions. They say what programs say that
expand no macros: conditions and cases of any length are expressions of their own here, which forms
have only in chains.
-/

namespace StackLisp

inductive Expression where
  | constant (value : Value)
  | variable (symbol : Symbol)
  | quote (first : Value) (later : List Value)
  | block (contents : List Expression)
  | choose (test whenTrue whenFalse : Expression)
  /-- the value of the first operand that counts as `stopsOn`, or that of the last one -/
  | conditions (stopsOn : Bool) (operands : List Expression)
  /-- tests and their values in turn, and a default behind them -/
  | cases (parts : List Expression)
  | define (symbol : Symbol) (value : Expression)
  | assign (symbol : Symbol) (value : Expression)
  | bind (symbols : List Symbol) (values contents : List Expression)
  | whileLoop (test : Expression) (contents : List Expression)
  | forLoop (start test step : Expression) (contents : List Expression)
  | leave (exit : Exit)
  | function (ref : FunctionRef)
  | call (symbol : Symbol) (arguments : List Expression)
  | dispatch (callee : Expression) (arguments : List Expression)
  deriving Inhabited

namespace Expression

mutual

def form : Expression → Form
  | .constant value => .constant value
  | .variable symbol => .variable symbol
  | .quote first later => .sequence (.constant first) (later.map .constant)
  | .block contents => Form.body (forms contents)
  | .choose test whenTrue whenFalse => .choose test.form whenTrue.form whenFalse.form
  | .conditions stopsOn operands => conditionsForm stopsOn operands
  | .cases parts => casesForm parts
  | .define symbol value => .define symbol value.form
  | .assign symbol value => .assign symbol value.form
  | .bind symbols values contents => .bind symbols (forms values) (Form.body (forms contents))
  | .whileLoop test contents => .whileLoop test.form (forms contents)
  | .forLoop start test step contents =>
    .forLoop start.form test.form step.form (forms contents)
  | .leave exit => .leave exit
  | .function ref => .function ref
  | .call symbol arguments => .call symbol (forms arguments)
  | .dispatch callee arguments => .dispatch callee.form (forms arguments)

def forms : List Expression → List Form
  | [] => []
  | expression :: later => expression.form :: forms later

def conditionsForm (stopsOn : Bool) : List Expression → Form
  | [] => .constant (.bool !stopsOn)
  | [last] => last.form
  | first :: later => .settle stopsOn first.form (conditionsForm stopsOn later)

def casesForm : List Expression → Form
  | [] => .nil
  | [default] => default.form
  | test :: value :: later => .choose test.form value.form (casesForm later)

end

end Expression

end StackLisp
