import StackLisp.Proofs.Meaning.Compiled

/-!
Every form is compiled to the code of an expression, whatever it was read from and whatever was
expanded on the way. So what a form means is what that expression means.
-/

namespace StackLisp

namespace Form

mutual

def expression : Form → Expression
  | .constant value => .constant value
  | .variable symbol => .variable symbol
  | .call symbol arguments => .call symbol (expressions arguments)
  | .dispatch callee arguments => .dispatch callee.expression (expressions arguments)
  | .sequence first later => .block (first.expression :: expressions later)
  | .define symbol value => .define symbol value.expression
  | .assign symbol value => .assign symbol value.expression
  | .choose test whenTrue whenFalse =>
    .choose test.expression whenTrue.expression whenFalse.expression
  | .settle stopsOn first second => .conditions stopsOn [first.expression, second.expression]
  | .bind symbols values body => .bind symbols (expressions values) [body.expression]
  | .whileLoop test body => .whileLoop test.expression (expressions body)
  | .forLoop start test step body =>
    .forLoop start.expression test.expression step.expression (expressions body)
  | .leave exit => .leave exit
  | .function ref => .function ref

def expressions : List Form → List Expression
  | [] => []
  | form :: later => form.expression :: expressions later

end

theorem expressions_length (forms : List Form) : (expressions forms).length = forms.length := by
  induction forms with
  | nil => rfl
  | cons first later ih => exact congrArg (· + 1) ih

mutual

theorem code_expression (place : Place) (form : Form) :
    form.expression.form.code place = form.code place := by
  match form with
  | .constant _ | .variable _ | .leave _ | .function _ => rfl
  | .call symbol arguments =>
      simp only [expression, Expression.form, code, operandCode_expressions, Machine.forms_length,
        expressions_length]
  | .dispatch callee arguments =>
      simp only [expression, Expression.form, code, code_expression, operandCode_expressions,
        Machine.forms_length, expressions_length]
  | .sequence first later =>
      simp only [expression, Expression.form, Expression.forms, body, code, code_expression,
        laterCode_expressions]
  | .define symbol value | .assign symbol value =>
      simp only [expression, Expression.form, code, code_expression]
  | .choose test whenTrue whenFalse =>
      simp only [expression, Expression.form, code, code_expression]
  | .settle stopsOn first second =>
      simp only [expression, Expression.form, Expression.conditionsForm, code, code_expression]
  | .bind symbols values inner =>
      simp only [expression, Expression.form, Expression.forms, body, code, laterCode, code_expression,
        bindingCode_expressions, Code.followedBy, List.map_nil, List.append_nil]
  | .whileLoop test contents =>
      simp only [expression, Expression.form, code, code_expression, roundCode_expressions]
  | .forLoop start test step contents =>
      simp only [expression, Expression.form, code, code_expression, roundCode_expressions]

theorem operandCode_expressions (place : Place) (forms : List Form) :
    operandCode place (Expression.forms (expressions forms)) = operandCode place forms := by
  match forms with
  | [] => rfl
  | form :: later =>
      simp only [expressions, Expression.forms, operandCode, code_expression, operandCode_expressions]

theorem laterCode_expressions (place : Place) (forms : List Form) :
    laterCode place (Expression.forms (expressions forms)) = laterCode place forms := by
  match forms with
  | [] => rfl
  | form :: later =>
      simp only [expressions, Expression.forms, laterCode, code_expression, laterCode_expressions]

theorem bindingCode_expressions (place : Place) (symbols : List Symbol) (forms : List Form) :
    bindingCode place symbols (Expression.forms (expressions forms)) =
      bindingCode place symbols forms := by
  match symbols, forms with
  | _, [] => cases symbols <;> rfl
  | [], _ :: _ => rfl
  | symbol :: symbols, form :: later =>
      simp only [expressions, Expression.forms, bindingCode, code_expression, bindingCode_expressions]

theorem roundCode_expressions (place : Place) (forms : List Form) :
    roundCode place (Expression.forms (expressions forms)) = roundCode place forms := by
  match forms with
  | [] => rfl
  | form :: later =>
      simp only [expressions, Expression.forms, roundCode, code_expression, roundCode_expressions]

end

mutual

theorem enclosed_expression (inLoop : Bool) (form : Form) :
    form.expression.form.enclosed inLoop = form.enclosed inLoop := by
  match form with
  | .constant _ | .variable _ | .leave _ | .function _ => rfl
  | .call symbol arguments =>
      simp only [expression, Expression.form, enclosed, allEnclosed_expressions]
  | .dispatch callee arguments =>
      simp only [expression, Expression.form, enclosed, enclosed_expression, allEnclosed_expressions]
  | .sequence first later =>
      simp only [expression, Expression.form, Expression.forms, body, enclosed, enclosed_expression,
        allEnclosed_expressions]
  | .define symbol value | .assign symbol value =>
      simp only [expression, Expression.form, enclosed, enclosed_expression]
  | .choose test whenTrue whenFalse =>
      simp only [expression, Expression.form, enclosed, enclosed_expression]
  | .settle stopsOn first second =>
      simp only [expression, Expression.form, Expression.conditionsForm, enclosed, enclosed_expression]
  | .bind symbols values inner =>
      simp only [expression, Expression.form, Expression.forms, body, enclosed, allEnclosed,
        enclosed_expression, allEnclosed_expressions, Bool.and_true]
  | .whileLoop test contents =>
      simp only [expression, Expression.form, enclosed, enclosed_expression, allEnclosed_expressions]
  | .forLoop start test step contents =>
      simp only [expression, Expression.form, enclosed, enclosed_expression, allEnclosed_expressions]

theorem allEnclosed_expressions (inLoop : Bool) (forms : List Form) :
    allEnclosed inLoop (Expression.forms (expressions forms)) = allEnclosed inLoop forms := by
  match forms with
  | [] => rfl
  | form :: later =>
      simp only [expressions, Expression.forms, allEnclosed, enclosed_expression,
        allEnclosed_expressions]

end

end Form

structure World.Starts (world : World) (form : Form) : Prop where
  closed : form.enclosed false = true
  program : world.env.function.code.toList = form.code .start
  begins : world.env.pc = some 0
  hasScope : 0 < world.env.scopes.size
  base : world.env.base ≤ world.env.calls.size

namespace Machine

variable {host : Host} {perform : Perform}

/-- A running program does what its form means. -/
theorem form_runs {world : World} {form : Form} {outcome : Outcome} {memory : Memory}
    (starts : world.Starts form)
    (evaluates : Evaluates host perform world.site world.memory (.expression form.expression) outcome
      memory) :
    RunsTo host perform world (form.code .start).length outcome memory := by
  obtain ⟨closed, program, begins, hasScope, base⟩ := starts
  rw [← Form.code_expression] at program ⊢
  rw [← Form.enclosed_expression] at closed
  exact evaluates_runs closed program begins hasScope base evaluates

end Machine

end StackLisp
