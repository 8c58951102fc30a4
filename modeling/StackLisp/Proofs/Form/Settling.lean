import StackLisp.Proofs.Form.Infix
import StackLisp.Proofs.Machine.Settling

/-!
Reading comes to an end, if the expansions that it asks for do. Two things bound it: how many expansions a
value may still come out of, and how deep the value goes. An expansion may go deeper than the form that it
replaces, but it has one expansion less left; everything else that is read is a part of what was read
before, or a block of infix operators rearranged.
-/

namespace StackLisp.Form

open Machine

section Parts

variable {kept : ArrayRef → Prop} {again : Nat → Nat → ReadPart} {depth : Nat}

def ReadingSettles (kept : ArrayRef → Prop) (store : Store) (again : Nat → Nat → ReadPart)
    (expansions : Nat) (value : Value) : Prop :=
  ∀ mode context, context.expansions = expansions →
    Steady kept store fun fuel room => again fuel room mode context value

abbrev SettlesWithin (kept : ArrayRef → Prop) (again : Nat → Nat → ReadPart)
    (expansions depth : Nat) : Prop :=
  ∀ store value, Store.Fits store kept value depth → ReadingSettles kept store again expansions value

variable {context : Context} (parts : SettlesWithin kept again context.expansions depth)
  {store : Store} {values : List Value} (inside : ∀ value ∈ values, store.Fits kept value depth)

theorem steady_refuse {α : Type} (problem : CompileProblem) :
    Steady kept store fun _ _ => (refuse problem : Machine α) := steady_fail _

include parts

theorem steady_part {value : Value} (fits : store.Fits kept value depth) :
    Steady kept store fun fuel room => again fuel room .form context value :=
  parts store value fits .form context rfl

include inside

theorem steady_readAll : Steady kept store fun fuel room => readAll (again fuel room) context values :=
  steady_mapM fun value member => steady_part parts (inside value member)

theorem steady_readConditions (stopsOn : Bool) : Steady kept store fun fuel room =>
    readConditions (again fuel room) context stopsOn values := by
  induction values with
  | nil => exact steady_pure _
  | cons first later ih =>
      have rest := ih fun value member => inside value (List.mem_cons_of_mem _ member)
      have head := steady_part parts (inside first List.mem_cons_self)
      cases later with
      | nil => exact head
      | cons second others => exact rest.bind fun _ => head.bind fun _ => steady_pure _

theorem steady_readCases :
    Steady kept store fun fuel room => readCases (again fuel room) context values := by
  induction values using readCases.induct with
  | case1 => exact steady_refuse _
  | case2 default => exact steady_part parts (inside default List.mem_cons_self)
  | case3 test value later ih =>
      simp only [List.forall_mem_cons] at inside
      obtain ⟨testFits, valueFits, others⟩ := inside
      exact (ih others).bind fun _ => (steady_part parts testFits).bind fun _ =>
        (steady_part parts valueFits).bind fun _ => steady_pure _

theorem steady_readBinding (name : String) :
    Steady kept store fun fuel room => readBinding (again fuel room) context name values := by
  unfold readBinding
  split
  next target value =>
    split
    · exact (steady_part parts (inside value (by simp))).bind fun _ => steady_pure _
    · exact steady_refuse _
  next => exact steady_refuse _

theorem steady_readChoice :
    Steady kept store fun fuel room => readChoice (again fuel room) context values := by
  have part (value : Value) (member : value ∈ values) := steady_part parts (inside value member)
  unfold readChoice
  split
  next test whenTrue =>
    exact (part test (by simp)).bind fun _ => (part whenTrue (by simp)).bind fun _ => steady_pure _
  next test whenTrue whenFalse =>
    exact (part test (by simp)).bind fun _ => (part whenTrue (by simp)).bind fun _ =>
      (part whenFalse (by simp)).bind fun _ => steady_pure _
  next => exact steady_refuse _

theorem steady_readFunction (name : String) (parameters : Value) :
    Steady kept store fun fuel room =>
      readFunction (again fuel room) context name parameters values := by
  have contents : SettlesWithin kept again context.insideFunction.expansions depth := parts
  exact (steady_ask _).bind fun _ => (steady_readAll contents inside).bind fun _ =>
    steady_onStore fun _ => rfl

theorem steady_readAnonymous :
    Steady kept store fun fuel room => readAnonymous (again fuel room) context values := by
  unfold readAnonymous
  split
  next name parameters contents =>
    simp only [List.forall_mem_cons] at inside
    exact (steady_readFunction parts inside.2.2 _ _).bind fun _ => steady_pure _
  next parameters contents _ =>
    simp only [List.forall_mem_cons] at inside
    exact (steady_readFunction parts inside.2 _ _).bind fun _ => steady_pure _
  next => exact steady_refuse _

theorem steady_readNamed :
    Steady kept store fun fuel room => readNamed (again fuel room) context values := by
  unfold readNamed
  split
  next name parameters contents =>
    simp only [List.forall_mem_cons] at inside
    exact (steady_readFunction parts inside.2.2 _ _).bind fun _ => steady_pure _
  next => exact steady_refuse _

theorem steady_readPairs :
    Steady kept store fun fuel room => readPairs (again fuel room) context values := by
  induction values using readPairs.induct with
  | case1 target value later symbol bindable ih =>
      simp only [List.forall_mem_cons] at inside
      simp only [readPairs, bindable]
      exact (steady_part parts inside.2.1).bind fun _ => (ih inside.2.2).bind fun _ => steady_pure _
  | case2 target value later unbindable =>
      simp only [readPairs, unbindable]
      exact steady_read fun _ _ => steady_refuse _
  | case3 values short =>
      unfold readPairs
      split
      · exact absurd rfl (short _ _ _)
      · exact steady_pure _

theorem steady_readBind :
    Steady kept store fun fuel room => readBind (again fuel room) context values := by
  unfold readBind
  split
  next ref contents =>
    simp only [List.forall_mem_cons] at inside
    obtain ⟨arrayFits, others⟩ := inside
    obtain ⟨isKept, made, within, below, items⟩ := arrayFits.array_inv
    refine steady_items isKept made ?_
    have bindings : ∀ item ∈ (store.array ref).toList, store.Fits kept item depth :=
      fun item member => (items item member).mono (by omega)
    have bound : Steady kept store fun fuel room => (do
        let read ← readPairs (again fuel room) context (store.array ref).toList
        return .bind read.1 read.2 (body (← readAll (again fuel room) context contents)) :
          Machine Form) :=
      (steady_readPairs parts bindings).bind fun _ =>
        (steady_readAll parts others).bind fun _ => steady_pure _
    dsimp only
    split
    · exact (steady_refuse _).bind fun _ => bound
    · exact bound
  next => exact steady_refuse _

theorem steady_readWhile :
    Steady kept store fun fuel room => readWhile (again fuel room) context values := by
  have round : SettlesWithin kept again context.insideLoop.expansions depth := parts
  unfold readWhile
  split
  next test contents =>
    simp only [List.forall_mem_cons] at inside
    exact (steady_part parts inside.1).bind fun _ =>
      (steady_readAll round inside.2).bind fun _ => steady_pure _
  next => exact steady_refuse _

theorem steady_readFor :
    Steady kept store fun fuel room => readFor (again fuel room) context values := by
  have round : SettlesWithin kept again context.insideLoop.expansions depth := parts
  unfold readFor
  split
  next ref contents =>
    simp only [List.forall_mem_cons] at inside
    obtain ⟨arrayFits, others⟩ := inside
    obtain ⟨isKept, made, within, below, items⟩ := arrayFits.array_inv
    refine steady_items isKept made ?_
    have header : ∀ item ∈ (store.array ref).toList, store.Fits kept item depth :=
      fun item member => (items item member).mono (by omega)
    split
    next start test step split =>
      simp only [split, List.forall_mem_cons] at header
      exact (steady_part parts header.1).bind fun _ => (steady_part parts header.2.1).bind fun _ =>
        (steady_readAll round others).bind fun _ => (steady_part round header.2.2.1).bind fun _ =>
          steady_pure _
    next => exact steady_refuse _
  next => exact steady_refuse _

omit parts inside in
theorem steady_readExit (exit : Exit) (values : List Value) :
    Steady kept store fun _ _ => readExit context exit values := by
  unfold readExit
  split
  · split
    · exact steady_pure _
    · exact steady_refuse _
  · exact steady_refuse _

theorem steady_readTemplate :
    Steady kept store fun fuel room => readTemplate (again fuel room) context values := by
  unfold readTemplate
  split
  next template => exact parts store template (inside template (by simp)) .template context rfl
  next => exact steady_refuse _

theorem steady_readInfix :
    Steady kept store fun fuel room => readInfix (again fuel room) context values := by
  unfold readInfix
  split
  next ref =>
    obtain ⟨isKept, made, within, below, items⟩ := (inside _ List.mem_cons_self).array_inv
    refine steady_items isKept made ?_
    split
    next => exact steady_pure _
    next =>
      cases grouped : InfixTree.ofItems (store.array ref).toList with
      | error problem => exact steady_stopped _
      | ok result =>
          obtain ⟨tree, extra⟩ := result
          simp only [Except.mapError, Machine.ofExcept, pure_bind]
          cases extra with
          | some item => exact steady_read fun _ _ => steady_refuse _
          | none =>
              obtain ⟨all, _⟩ := (InfixTree.ofItems_iff _ _).mp grouped
              refine steady_change (fun store => Store.toValue_arrays tree store) fun before rests => ?_
              have fit : ∀ item ∈ tree.items, before.Fits kept item within := by
                rw [all]
                exact fun item member => (items item member).rests rests
              refine steady_part parts ((Store.fits_toValue tree before fit).mono ?_)
              rw [all, Array.length_toList]
              exact Nat.le_of_lt below
  next => exact steady_refuse _

theorem steady_readExpander :
    Steady kept store fun fuel room => readExpander (again fuel room) context values := by
  unfold readExpander
  split
  next target parameters contents =>
    split
    next name _ =>
      simp only [List.forall_mem_cons] at inside
      exact (steady_readFunction parts inside.2.2 _ _).bind fun ref =>
        (steady_log _ _).bind fun _ => (steady_onStore fun _ => rfl).bind fun _ => steady_pure _
    next => exact steady_refuse _
  next => exact steady_refuse _

omit parts inside in
theorem steady_readQuote (values : List Value) : Steady kept store fun _ _ => readQuote values := by
  unfold readQuote
  split
  · exact steady_refuse _
  · exact steady_pure _

theorem steady_readSpecial (name : String) (special : Special) : Steady kept store fun fuel room =>
    readSpecial (again fuel room) context name special values := by
  cases special with
  | quote => exact steady_readQuote _
  | conjunction | disjunction => exact steady_readConditions parts inside _
  | cond => exact steady_readCases parts inside
  | define | assign => exact (steady_readBinding parts inside _).bind fun _ => steady_pure _
  | choose => exact steady_readChoice parts inside
  | sequence => exact (steady_readAll parts inside).bind fun _ => steady_pure _
  | function => exact steady_readAnonymous parts inside
  | namedFunction => exact steady_readNamed parts inside
  | bind => exact steady_readBind parts inside
  | whileLoop => exact steady_readWhile parts inside
  | forLoop => exact steady_readFor parts inside
  | leave exit => exact steady_readExit _ _
  | template => exact steady_readTemplate parts inside
  | infixBlock => exact steady_readInfix parts inside
  | expander => exact steady_readExpander parts inside

omit parts inside in
theorem mem_of_unwrapped? {name : String} {inner : Value} (unwrapped : unwrapped? name values = some inner) :
    inner ∈ values := by
  unfold unwrapped? at unwrapped
  split at unwrapped
  next head argument =>
    split at unwrapped
    · cases unwrapped
      simp
    · cases unwrapped
  next => cases unwrapped

omit inside in
theorem steady_readSegment (wrap : Symbol) {item : Value} (fits : store.Fits kept item depth) :
    Steady kept store fun fuel room => readSegment (again fuel room) context wrap item := by
  unfold readSegment
  split
  next spliced found =>
    obtain ⟨items, isList, isWrapped⟩ := Option.bind_eq_some_iff.mp found
    have member : spliced ∈ items := mem_of_unwrapped? isWrapped
    exact steady_part parts ((fits.items isList spliced member).mono (Nat.sub_le _ _))
  next =>
    exact (parts store item fits .template context rfl).bind fun _ => steady_pure _

omit inside in
theorem steady_readTemplateOf {value : Value} (fits : store.Fits kept value (depth + 1)) :
    Steady kept store fun fuel room => readTemplateOf (again fuel room) context value := by
  unfold readTemplateOf
  split
  next mark head tail =>
    split
    next => exact steady_pure _
    next items isList =>
      have inside : ∀ item ∈ items, store.Fits kept item depth := fits.items isList
      split
      next inner isWrapped =>
        exact steady_part parts (inside inner (mem_of_unwrapped? isWrapped))
      next =>
        refine (steady_intern _).bind fun wrap => ?_
        exact (steady_mapM fun item member => steady_readSegment parts wrap (inside item member)).bind
          fun _ => (steady_intern _).bind fun _ => steady_pure _
  next ref =>
    obtain ⟨isKept, made, within, below, items⟩ := fits.array_inv
    refine steady_items isKept made ((steady_intern _).bind fun wrap => ?_)
    refine (steady_mapM fun item member => ?_).bind fun _ =>
      (steady_intern _).bind fun _ => steady_pure _
    exact steady_readSegment parts wrap ((items item member).mono (by omega))
  next => exact steady_pure _

end Parts

/-! Expansions. -/

section Expansions

variable {kept : ArrayRef → Prop} {performs : Nat → Perform}

/-- With enough fuel, a request ends, with an error or with a value that has no cycles, and the arrays
that are kept stay as they are. -/
abbrev EndsWell (kept : ArrayRef → Prop) (performs : Nat → Perform) : Request → World → Prop :=
  EndsBy (fun world value after =>
    after.store.Acyclic kept value ∧ world.store.Rests kept after.store) performs

variable (ends : ∀ request world, EndsWell kept performs request world)

include ends

theorem settles_expandWith (expander : FunctionRef) (arguments : List Value) (world : World) :
    Settles (fun fuel _ => expandWith (performs fuel) expander arguments) world fun value after =>
      (∃ depth, after.store.Fits kept value depth) ∧ world.store.Rests kept after.store := by
  let good (value : Value) (store : Store) : Prop :=
    (∃ depth, store.Fits kept value depth) ∧ world.store.Rests kept store
  have settled : Settles (fun fuel _ => inNested (performs fuel (.apply (.function expander) arguments)))
      world fun value after => good value after.store := by
    refine settles_inNested fun inner same => ?_
    have ended : Settles (fun fuel _ => performs fuel (.apply (.function expander) arguments)) inner
        fun value after => after.store.Acyclic kept value ∧ inner.store.Rests kept after.store :=
      ends _ inner
    rw [same] at ended
    exact ended.mono fun value after good => ⟨good.1.exists_fits, good.2⟩
  exact settled

variable {again : Nat → Nat → ReadPart} {depth : Nat} {context : Context}
  (parts : SettlesWithin kept again context.expansions depth)
  (expanded : context.expansions < Context.expansionLimit →
    ∀ depth, SettlesWithin kept again (context.expansions + 1) depth)
  {store : Store}

include parts expanded

theorem steady_readNamedForm (symbol : Symbol) {values : List Value}
    (inside : ∀ value ∈ values, store.Fits kept value depth) :
    Steady kept store fun fuel room =>
      readNamedForm (again fuel room) context (performs fuel) symbol values := by
  unfold readNamedForm
  split
  next special => exact steady_readSpecial parts inside _ _
  next =>
    refine steady_read fun after rests => ?_
    cases after.expander? symbol.id with
    | some expander =>
        dsimp only
        split
        next => exact steady_stopped _
        next left =>
          have below : context.expansions < Context.expansionLimit := Nat.lt_of_not_le left
          intro world since
          refine (settles_expandWith ends expander values world).bind ?_
          rintro expansion later ⟨⟨deep, fits⟩, kept'⟩
          have reading := expanded below deep later.store expansion fits .form context.insideExpansion rfl
          exact (reading later (.refl _)).mono fun _ _ => kept'.trans
    | none =>
        refine steady_read fun later rests' => ?_
        split
        · exact steady_pure _
        · refine (steady_readAll parts fun value member => ?_).bind fun _ => steady_pure _
          exact (inside value member).rests (rests.trans rests')

theorem steady_readForm {value : Value} (fits : store.Fits kept value (depth + 1)) :
    Steady kept store fun fuel room =>
      readForm (again fuel room) context (performs fuel) value := by
  unfold readForm
  split
  next symbol => exact steady_pure _
  next ref =>
    obtain ⟨isKept, made, within, below, items⟩ := fits.array_inv
    refine steady_items isKept made ?_
    refine (steady_readAll parts fun item member => ?_).bind fun _ =>
      (steady_intern _).bind fun _ => steady_pure _
    exact (items item member).mono (by omega)
  next mark head tail =>
    split
    next => exact steady_read fun _ _ => steady_refuse _
    next => exact steady_pure _
    next first arguments isList =>
      have inside : ∀ item ∈ first :: arguments, store.Fits kept item depth := fits.items isList
      rw [List.forall_mem_cons] at inside
      split
      next symbol _ => exact steady_readNamedForm ends parts expanded symbol inside.2
      next =>
        exact (steady_part parts inside.1).bind fun _ =>
          (steady_readAll parts inside.2).bind fun _ => steady_pure _
  next => exact steady_pure _

end Expansions

/-! Any depth. -/

section Depth

variable {kept : ArrayRef → Prop} {performs : Nat → Perform}
  (ends : ∀ request world, EndsWell kept performs request world)

theorem settlesWithin_plain {expansions : Nat} :
    SettlesWithin kept (fun fuel room => read (performs fuel) room) expansions 0 := by
  intro store value fits mode context _
  cases fits with
  | plain none noPair =>
      have formed : Steady kept store fun fuel room =>
          readForm (read (performs fuel) room) context (performs fuel) value := by
        cases value with
        | pair mark head tail => exact absurd rfl (noPair _ _ _)
        | array ref => cases none
        | _ => exact steady_pure _
      have built : Steady kept store fun fuel room =>
          readTemplateOf (read (performs fuel) room) context value := by
        cases value with
        | pair mark head tail => exact absurd rfl (noPair _ _ _)
        | array ref => cases none
        | _ => exact steady_pure _
      cases mode with
      | form => exact formed.deeper fun _ _ => rfl
      | template => exact built.deeper fun _ _ => rfl
  | pair _ _ below => exact absurd below (Nat.not_lt_zero _)
  | array _ _ _ below => exact absurd below (Nat.not_lt_zero _)

include ends

theorem settlesWithin_of_expanded {expansions : Nat}
    (expanded : expansions < Context.expansionLimit →
      ∀ depth, SettlesWithin kept (fun fuel room => read (performs fuel) room) (expansions + 1) depth)
    (depth : Nat) : SettlesWithin kept (fun fuel room => read (performs fuel) room) expansions depth := by
  induction depth with
  | zero => exact settlesWithin_plain
  | succ depth ih =>
      intro store value fits mode context same
      subst same
      cases mode with
      | form => exact (steady_readForm ends ih expanded fits).deeper fun _ _ => rfl
      | template => exact (steady_readTemplateOf ih fits).deeper fun _ _ => rfl

/-- By how many expansions are left, and for each count by how deep the value goes. -/
theorem settlesWithin (left : Nat) {expansions : Nat} (spent : Context.expansionLimit ≤ expansions + left)
    (depth : Nat) : SettlesWithin kept (fun fuel room => read (performs fuel) room) expansions depth := by
  induction left generalizing expansions depth with
  | zero => exact settlesWithin_of_expanded ends (fun below => absurd below (Nat.not_lt_of_le spent)) depth
  | succ left ih =>
      exact settlesWithin_of_expanded ends (fun _ depth => ih (by omega) depth) depth

theorem settles_read {value : Value} {world : World} (acyclic : world.store.Acyclic kept value)
    (mode : Reading) (context : Context) :
    Settles (fun fuel room => read (performs fuel) room mode context value) world
      fun _ after => world.store.Rests kept after.store := by
  obtain ⟨depth, fits⟩ := acyclic.exists_fits
  have reads := settlesWithin ends Context.expansionLimit (Nat.le_add_left _ context.expansions) depth
  exact reads world.store value fits mode context rfl world (.refl _)

end Depth

end StackLisp.Form
