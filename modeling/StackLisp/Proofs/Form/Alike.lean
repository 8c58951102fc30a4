import StackLisp.Form.Reading
import StackLisp.Proofs.Machine.Tame

/-!
Readers compared. What a form is read as depends on how its parts are read, and the parts of one value
stand inside of as many expansions as the value itself. So two ways of reading parts that are alike
there, in any sense that carries over from each computation to what follows it, read the form alike.
-/

namespace StackLisp

namespace Machine

structure Congruence where
  holds : {α : Type} → Machine α → Machine α → Prop
  refl : ∀ {α : Type} (body : Machine α), holds body body
  bind : ∀ {α β : Type} {first second : Machine α} {later others : α → Machine β},
    holds first second → (∀ value, holds (later value) (others value)) →
      holds (first >>= later) (second >>= others)

namespace Congruence

def same : Congruence where
  holds := Eq
  refl := fun _ => rfl
  bind := fun first later => by rw [first, funext later]

variable (alike : Congruence)

theorem andThen {α β : Type} {first : Machine α} {later others : α → Machine β}
    (rest : ∀ value, alike.holds (later value) (others value)) :
    alike.holds (first >>= later) (first >>= others) := alike.bind (alike.refl first) rest

theorem andReturn {α β : Type} {first second : Machine α} (body : alike.holds first second)
    (result : α → Machine β) : alike.holds (first >>= result) (second >>= result) :=
  alike.bind body fun value => alike.refl (result value)

theorem mapM {α β : Type} {step other : α → Machine β} (items : List α)
    (each : ∀ item, alike.holds (step item) (other item)) :
    alike.holds (items.mapM step) (items.mapM other) := by
  induction items with
  | nil => exact alike.refl _
  | cons first later ih =>
      simp only [List.mapM_cons]
      exact alike.bind (each first) fun _ => alike.andReturn ih _

end Congruence

end Machine

namespace Form

open Machine

/-- Two ways of reading parts are alike on all that stands inside of so many expansions. -/
def AlikeInside (alike : Congruence) (expansions : Nat) (again other : ReadPart) : Prop :=
  ∀ mode context value, context.expansions = expansions →
    alike.holds (again mode context value) (other mode context value)

section Parts

variable {alike : Congruence} {again other : ReadPart} {context : Context}
  (parts : AlikeInside alike context.expansions again other)

include parts

theorem AlikeInside.part (value : Value) :
    alike.holds (again .form context value) (other .form context value) :=
  parts .form context value rfl

theorem alike_readAll (values : List Value) :
    alike.holds (readAll again context values) (readAll other context values) :=
  alike.mapM values parts.part

theorem alike_readConditions (stopsOn : Bool) (values : List Value) :
    alike.holds (readConditions again context stopsOn values)
      (readConditions other context stopsOn values) := by
  induction values with
  | nil => exact alike.refl _
  | cons first later ih =>
      cases later with
      | nil => exact parts.part first
      | cons second others => exact alike.bind ih fun _ => alike.andReturn (parts.part first) _

theorem alike_readCases (values : List Value) :
    alike.holds (readCases again context values) (readCases other context values) := by
  induction values using readCases.induct with
  | case1 => exact alike.refl _
  | case2 default => exact parts.part default
  | case3 test value later ih =>
      exact alike.bind ih fun _ => alike.bind (parts.part test) fun _ =>
        alike.andReturn (parts.part value) _

theorem alike_readBinding (name : String) (values : List Value) :
    alike.holds (readBinding again context name values) (readBinding other context name values) := by
  unfold readBinding
  split
  next target value =>
    split
    · exact alike.andReturn (parts.part value) _
    · exact alike.refl _
  next => exact alike.refl _

theorem alike_readChoice (values : List Value) :
    alike.holds (readChoice again context values) (readChoice other context values) := by
  unfold readChoice
  split
  next test whenTrue =>
    exact alike.bind (parts.part test) fun _ => alike.andReturn (parts.part whenTrue) _
  next test whenTrue whenFalse =>
    exact alike.bind (parts.part test) fun _ => alike.bind (parts.part whenTrue) fun _ =>
      alike.andReturn (parts.part whenFalse) _
  next => exact alike.refl _

theorem alike_readFunction (name : String) (parameters : Value) (contents : List Value) :
    alike.holds (readFunction again context name parameters contents)
      (readFunction other context name parameters contents) := by
  have inner : AlikeInside alike context.insideFunction.expansions again other := parts
  exact alike.andThen fun _ => alike.andReturn (alike_readAll inner contents) _

theorem alike_readAnonymous (values : List Value) :
    alike.holds (readAnonymous again context values) (readAnonymous other context values) := by
  unfold readAnonymous
  split
  · exact alike.andReturn (alike_readFunction parts _ _ _) _
  · exact alike.andReturn (alike_readFunction parts _ _ _) _
  · exact alike.refl _

theorem alike_readNamed (values : List Value) :
    alike.holds (readNamed again context values) (readNamed other context values) := by
  unfold readNamed
  split
  · exact alike.andReturn (alike_readFunction parts _ _ _) _
  · exact alike.refl _

theorem alike_readPairs (values : List Value) :
    alike.holds (readPairs again context values) (readPairs other context values) := by
  induction values using readPairs.induct with
  | case1 target value later symbol bindable ih =>
      simp only [readPairs, bindable]
      exact alike.bind (parts.part value) fun _ => alike.andReturn ih _
  | case2 target value later unbindable =>
      simp only [readPairs, unbindable]
      exact alike.refl _
  | case3 values short =>
      unfold readPairs
      split
      · exact absurd rfl (short _ _ _)
      · exact alike.refl _

theorem alike_readBind (values : List Value) :
    alike.holds (readBind again context values) (readBind other context values) := by
  have bound (bindings contents : List Value) := alike.bind (alike_readPairs parts bindings)
    fun read => alike.andReturn (alike_readAll parts contents) fun forms =>
      pure (Form.bind read.1 read.2 (body forms))
  unfold readBind
  split
  · refine alike.andThen fun bindings => ?_
    dsimp only
    split
    · exact alike.andThen fun _ => bound _ _
    · exact bound _ _
  · exact alike.refl _

theorem alike_readWhile (values : List Value) :
    alike.holds (readWhile again context values) (readWhile other context values) := by
  have inner : AlikeInside alike context.insideLoop.expansions again other := parts
  unfold readWhile
  split
  next test contents =>
    exact alike.bind (parts.part test) fun _ => alike.andReturn (alike_readAll inner contents) _
  next => exact alike.refl _

theorem alike_readFor (values : List Value) :
    alike.holds (readFor again context values) (readFor other context values) := by
  have inner : AlikeInside alike context.insideLoop.expansions again other := parts
  unfold readFor
  split
  next ref contents =>
    refine alike.andThen fun header => ?_
    split
    next start test step =>
      exact alike.bind (parts.part start) fun _ => alike.bind (parts.part test) fun _ =>
        alike.bind (alike_readAll inner contents) fun _ => alike.andReturn (inner.part step) _
    next => exact alike.refl _
  next => exact alike.refl _

theorem alike_readTemplate (values : List Value) :
    alike.holds (readTemplate again context values) (readTemplate other context values) := by
  unfold readTemplate
  split
  next template => exact parts .template context template rfl
  next => exact alike.refl _

theorem alike_readInfix (values : List Value) :
    alike.holds (readInfix again context values) (readInfix other context values) := by
  unfold readInfix
  split
  next ref =>
    refine alike.andThen fun items => ?_
    split
    next => exact alike.refl _
    next =>
      refine alike.andThen fun (tree, extra) => ?_
      cases extra with
      | some item => exact alike.refl _
      | none => exact alike.andThen parts.part
  next => exact alike.refl _

theorem alike_readExpander (values : List Value) :
    alike.holds (readExpander again context values) (readExpander other context values) := by
  unfold readExpander
  split
  · split
    · exact alike.andReturn (alike_readFunction parts _ _ _) _
    · exact alike.refl _
  · exact alike.refl _

theorem alike_readSpecial (name : String) (special : Special) (values : List Value) :
    alike.holds (readSpecial again context name special values)
      (readSpecial other context name special values) := by
  cases special with
  | quote | leave => exact alike.refl _
  | conjunction | disjunction => exact alike_readConditions parts _ _
  | cond => exact alike_readCases parts _
  | define | assign => exact alike.andReturn (alike_readBinding parts _ _) _
  | choose => exact alike_readChoice parts _
  | sequence => exact alike.andReturn (alike_readAll parts _) _
  | function => exact alike_readAnonymous parts _
  | namedFunction => exact alike_readNamed parts _
  | bind => exact alike_readBind parts _
  | whileLoop => exact alike_readWhile parts _
  | forLoop => exact alike_readFor parts _
  | template => exact alike_readTemplate parts _
  | infixBlock => exact alike_readInfix parts _
  | expander => exact alike_readExpander parts _

theorem alike_readSegment (wrap : Symbol) (item : Value) :
    alike.holds (readSegment again context wrap item) (readSegment other context wrap item) := by
  unfold readSegment
  split
  next spliced _ => exact parts.part spliced
  next => exact alike.andReturn (parts .template context item rfl) _

theorem alike_readTemplateOf (value : Value) :
    alike.holds (readTemplateOf again context value) (readTemplateOf other context value) := by
  have segments (wrap : Symbol) (items : List Value) :=
    alike.mapM items (alike_readSegment parts wrap)
  unfold readTemplateOf
  split
  · split
    · exact alike.refl _
    · split
      · exact parts.part _
      · exact alike.andThen fun wrap => alike.andReturn (segments wrap _) _
  · exact alike.andThen fun items => alike.andThen fun wrap => alike.andReturn (segments wrap items) _
  · exact alike.refl _

/-- An expansion stands inside of one more expansion than the form that it comes out of, and there is
none where the limit is reached. -/
theorem alike_readForm {perform another : Perform}
    (expanded : context.expansions < Context.expansionLimit →
      AlikeInside alike (context.expansions + 1) again other)
    (expand : ∀ expander arguments,
      alike.holds (expandWith perform expander arguments) (expandWith another expander arguments))
    (value : Value) :
    alike.holds (readForm again context perform value) (readForm other context another value) := by
  have named (symbol : Symbol) (values : List Value) :
      alike.holds (readNamedForm again context perform symbol values)
        (readNamedForm other context another symbol values) := by
    unfold readNamedForm
    split
    · exact alike_readSpecial parts _ _ _
    · refine alike.andThen fun found => ?_
      cases found with
      | some expander =>
          dsimp only
          split
          next => exact alike.refl (refuse (.expandsTooDeeply symbol.name))
          next left =>
            exact alike.bind (expand _ _) fun expansion =>
              expanded (Nat.lt_of_not_le left) .form context.insideExpansion expansion rfl
      | none =>
          refine alike.andThen fun isBuilder => ?_
          split
          · exact alike.refl _
          · exact alike.andReturn (alike_readAll parts _) _
  unfold readForm
  split
  · exact alike.refl _
  · exact alike.andThen fun items => alike.andReturn (alike_readAll parts items) _
  · split
    · exact alike.refl _
    · exact alike.refl _
    · split
      · exact named _ _
      · exact alike.bind (parts.part _) fun _ => alike.andReturn (alike_readAll parts _) _
  · exact alike.refl _

end Parts

end Form

end StackLisp
