import StackLisp.Proofs.Form.Reading
import StackLisp.Proofs.Machine.Acting

/-!
The reading of forms acts: it enters names, makes functions, registers expanders and asks for the
expansions of forms, and it binds nothing.
-/

namespace StackLisp.Form

open Machine

variable {writes : Store.Writes} {hears : Prop}

abbrev ActsOn (writes : Store.Writes) (hears : Prop) (again : Perform → ReadPart) : Prop :=
  ∀ mode context value, Acts writes hears fun perform => again perform mode context value

section Parts

variable {again : Perform → ReadPart} (parts : ActsOn writes hears again) (context : Context)

theorem acts_refuse {α : Type} (problem : CompileProblem) :
    Acts writes hears fun _ => (refuse problem : Machine α) := .failure _

include parts

theorem acts_readAll (values : List Value) :
    Acts writes hears fun perform => readAll (again perform) context values := by
  induction values with
  | nil => exact .result _
  | cons value later ih =>
      simp only [readAll, List.mapM_cons]
      exact (parts _ _ _).andThen fun _ => ih.andThen fun _ => .result _

theorem acts_readConditions (stopsOn : Bool) (values : List Value) :
    Acts writes hears fun perform => readConditions (again perform) context stopsOn values := by
  induction values with
  | nil => exact .result _
  | cons first later ih =>
      cases later with
      | nil => exact parts _ _ _
      | cons second others => exact ih.andThen fun _ => (parts _ _ _).andThen fun _ => .result _

theorem acts_readCases (values : List Value) :
    Acts writes hears fun perform => readCases (again perform) context values := by
  induction values using readCases.induct with
  | case1 => exact acts_refuse _
  | case2 => exact parts _ _ _
  | case3 _ _ _ ih =>
      exact ih.andThen fun _ => (parts _ _ _).andThen fun _ => (parts _ _ _).andThen fun _ =>
        .result _

theorem acts_readBinding (name : String) (values : List Value) :
    Acts writes hears fun perform => readBinding (again perform) context name values := by
  unfold readBinding
  split
  · split
    · exact (parts _ _ _).andThen fun _ => .result _
    · exact acts_refuse _
  · exact acts_refuse _

theorem acts_readChoice (values : List Value) :
    Acts writes hears fun perform => readChoice (again perform) context values := by
  unfold readChoice
  split
  · exact (parts _ _ _).andThen fun _ => (parts _ _ _).andThen fun _ => .result _
  · exact (parts _ _ _).andThen fun _ => (parts _ _ _).andThen fun _ => (parts _ _ _).andThen
      fun _ => .result _
  · exact acts_refuse _

theorem acts_readFunction (name : String) (parameters : Value) (contents : List Value) :
    Acts writes hears fun perform =>
      readFunction (again perform) context name parameters contents :=
  (acts_ask _).andThen fun _ => (acts_readAll parts _ contents).andThen fun _ =>
    .change fun store => store.develops_newFunction _

theorem acts_readAnonymous (values : List Value) :
    Acts writes hears fun perform => readAnonymous (again perform) context values := by
  unfold readAnonymous
  split
  · exact (acts_readFunction parts _ _ _ _).andThen fun _ => .result _
  · exact (acts_readFunction parts _ _ _ _).andThen fun _ => .result _
  · exact acts_refuse _

theorem acts_readNamed (values : List Value) :
    Acts writes hears fun perform => readNamed (again perform) context values := by
  unfold readNamed
  split
  · exact (acts_readFunction parts _ _ _ _).andThen fun _ => .result _
  · exact acts_refuse _

theorem acts_readPairs (values : List Value) :
    Acts writes hears fun perform => readPairs (again perform) context values := by
  induction values using readPairs.induct with
  | case1 target value later symbol bindable ih =>
      simp only [readPairs, bindable]
      exact (parts _ _ _).andThen fun _ => ih.andThen fun _ => .result _
  | case2 target value later unbindable =>
      simp only [readPairs, unbindable]
      exact (acts_readStore _).andThen fun _ => acts_refuse _
  | case3 values short =>
      unfold readPairs
      split
      · exact absurd rfl (short _ _ _)
      · exact .result _

theorem acts_readBind (values : List Value) :
    Acts writes hears fun perform => readBind (again perform) context values := by
  have bound (bindings contents : List Value) : Acts writes hears fun perform => (do
      let read ← readPairs (again perform) context bindings
      return .bind read.1 read.2 (body (← readAll (again perform) context contents)) :
        Machine Form) :=
    (acts_readPairs parts context bindings).andThen fun _ =>
      (acts_readAll parts context contents).andThen fun _ => .result _
  unfold readBind
  split
  · refine (acts_readStore _).andThen fun bindings => ?_
    dsimp only
    split
    · exact (acts_refuse _).andThen fun _ => bound _ _
    · exact bound _ _
  · exact acts_refuse _

theorem acts_readWhile (values : List Value) :
    Acts writes hears fun perform => readWhile (again perform) context values := by
  unfold readWhile
  split
  · exact (parts _ _ _).andThen fun _ => (acts_readAll parts _ _).andThen fun _ => .result _
  · exact acts_refuse _

theorem acts_readFor (values : List Value) :
    Acts writes hears fun perform => readFor (again perform) context values := by
  unfold readFor
  split
  · refine (acts_readStore _).andThen fun header => ?_
    split
    · exact (parts _ _ _).andThen fun _ => (parts _ _ _).andThen fun _ =>
        (acts_readAll parts _ _).andThen fun _ => (parts _ _ _).andThen fun _ => .result _
    · exact acts_refuse _
  · exact acts_refuse _

omit parts in
theorem acts_readExit (exit : Exit) (values : List Value) :
    Acts writes hears fun _ => readExit context exit values := by
  unfold readExit
  split
  · split
    · exact .result _
    · exact acts_refuse _
  · exact acts_refuse _

theorem acts_readTemplate (values : List Value) :
    Acts writes hears fun perform => readTemplate (again perform) context values := by
  unfold readTemplate
  split
  · exact parts _ _ _
  · exact acts_refuse _

theorem acts_readInfix (values : List Value) :
    Acts writes hears fun perform => readInfix (again perform) context values := by
  unfold readInfix
  split
  · refine (acts_readStore _).andThen fun items => ?_
    split
    · exact .result _
    · refine (acts_ofExcept _).andThen fun (tree, extra) => ?_
      cases extra with
      | some item => exact (acts_readStore _).andThen fun _ => acts_refuse _
      | none =>
          exact (Acts.change fun store => store.develops_toValue tree).andThen fun _ => parts _ _ _
  · exact acts_refuse _

theorem acts_readExpander (values : List Value) :
    Acts writes hears fun perform => readExpander (again perform) context values := by
  unfold readExpander
  split
  · split
    · exact (acts_readFunction parts _ _ _ _).andThen fun _ => (acts_log _ _).andThen fun _ =>
        (Acts.change fun store => (Store.Change.expanding _ _).develops).andThen fun _ => .result _
    · exact acts_refuse _
  · exact acts_refuse _

omit parts in
theorem acts_readQuote (values : List Value) : Acts writes hears fun _ => readQuote values := by
  unfold readQuote
  split
  · exact acts_refuse _
  · exact .result _

theorem acts_readSpecial (name : String) (special : Special) (values : List Value) :
    Acts writes hears fun perform => readSpecial (again perform) context name special values := by
  cases special with
  | quote => exact acts_readQuote _
  | conjunction | disjunction => exact acts_readConditions parts _ _ _
  | cond => exact acts_readCases parts _ _
  | define | assign => exact (acts_readBinding parts _ _ _).andThen fun _ => .result _
  | choose => exact acts_readChoice parts _ _
  | sequence => exact (acts_readAll parts _ _).andThen fun _ => .result _
  | function => exact acts_readAnonymous parts _ _
  | namedFunction => exact acts_readNamed parts _ _
  | bind => exact acts_readBind parts _ _
  | whileLoop => exact acts_readWhile parts _ _
  | forLoop => exact acts_readFor parts _ _
  | leave exit => exact acts_readExit _ _ _
  | template => exact acts_readTemplate parts _ _
  | infixBlock => exact acts_readInfix parts _ _
  | expander => exact acts_readExpander parts _ _

theorem acts_readNamedForm (symbol : Symbol) (values : List Value) :
    Acts writes hears fun perform =>
      readNamedForm (again perform) context perform symbol values := by
  unfold readNamedForm
  split
  · exact acts_readSpecial parts _ _ _ _
  · refine (acts_readStore _).andThen fun expander => ?_
    have expanded (ref : FunctionRef) : Acts writes hears fun perform => (do
        let expansion ← expandWith perform ref values
        again perform .form context.insideExpansion expansion : Machine Form) :=
      (Interpreter.acts_expand _ _).andThen fun _ => parts _ _ _
    cases expander with
    | some ref =>
        dsimp only
        split
        · exact (acts_refuse _).andThen fun _ => expanded ref
        · exact expanded ref
    | none =>
        refine (acts_readStore _).andThen fun builder => ?_
        split
        · exact .result _
        · exact (acts_readAll parts _ _).andThen fun _ => .result _

theorem acts_readForm (value : Value) :
    Acts writes hears fun perform => readForm (again perform) context perform value := by
  unfold readForm
  split
  · exact .result _
  · exact (acts_readStore _).andThen fun _ => (acts_readAll parts _ _).andThen fun _ =>
      (acts_intern _).andThen fun _ => .result _
  · split
    · exact (acts_readStore _).andThen fun _ => acts_refuse _
    · exact .result _
    · split
      · exact acts_readNamedForm parts _ _ _
      · exact (parts _ _ _).andThen fun _ => (acts_readAll parts _ _).andThen fun _ => .result _
  · exact .result _

theorem acts_readSegment (wrap : Symbol) (item : Value) :
    Acts writes hears fun perform => readSegment (again perform) context wrap item := by
  unfold readSegment
  split
  · exact parts _ _ _
  · exact (parts _ _ _).andThen fun _ => .result _

theorem acts_readSegments (wrap : Symbol) (items : List Value) :
    Acts writes hears fun perform => items.mapM (readSegment (again perform) context wrap) := by
  induction items with
  | nil => exact .result _
  | cons item later ih =>
      simp only [List.mapM_cons]
      exact (acts_readSegment parts _ _ _).andThen fun _ => ih.andThen fun _ => .result _

theorem acts_readTemplateOf (value : Value) :
    Acts writes hears fun perform => readTemplateOf (again perform) context value := by
  unfold readTemplateOf
  split
  · split
    · exact .result _
    · split
      · exact parts _ _ _
      · exact (acts_intern _).andThen fun wrap => (acts_readSegments parts _ wrap _).andThen
          fun _ => (acts_intern _).andThen fun _ => .result _
  · exact (acts_readStore _).andThen fun _ => (acts_intern _).andThen fun wrap =>
      (acts_readSegments parts _ wrap _).andThen fun _ => (acts_intern _).andThen fun _ => .result _
  · exact .result _

end Parts

theorem acts_read (fuel : Nat) : ActsOn writes hears fun perform => read perform fuel := by
  induction fuel with
  | zero => exact fun _ _ _ => .outOfFuel
  | succ fuel ih =>
      intro mode context value
      cases mode with
      | form => exact acts_readForm ih context value
      | template => exact acts_readTemplateOf ih context value

theorem acts_readProgram (fuel : Nat) (values : List Value) :
    Acts writes hears fun perform => readProgram perform fuel values :=
  acts_readAll (acts_read fuel) .start values

end StackLisp.Form
