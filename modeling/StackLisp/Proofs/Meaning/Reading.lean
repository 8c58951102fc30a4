import StackLisp.Form.Reading
import StackLisp.Proofs.Machine.Strict
import StackLisp.Proofs.Meaning.Source

/-!
Reading a value that uses no macros gives the form of an expression whose source the value is. The
store only grows meanwhile: it gets names and functions, and keeps all else.
-/

namespace StackLisp

structure Store.Extends (later store : Store) : Prop where
  arrays : later.arrays = store.arrays
  functions : ∀ (ref : FunctionRef) (function : Function),
    store.functions[ref]? = some function → later.functions[ref]? = some function
  expanders : later.expanders = store.expanders
  builders : later.builders = store.builders
  symbols : later.symbols.Extends store.symbols

namespace Store

variable {last later store : Store}

theorem Extends.refl (store : Store) : store.Extends store :=
  ⟨rfl, fun _ _ found => found, rfl, rfl, .refl _⟩

theorem Extends.trans (second : last.Extends later) (first : later.Extends store) :
    last.Extends store where
  arrays := second.arrays.trans first.arrays
  functions := fun ref function found => second.functions ref function (first.functions ref function found)
  expanders := second.expanders.trans first.expanders
  builders := second.builders.trans first.builders
  symbols := second.symbols.trans first.symbols

theorem Extends.array (extended : later.Extends store) (ref : ArrayRef) :
    later.array ref = store.array ref := by
  rw [Store.array, Store.array, extended.arrays]

theorem Extends.expander (extended : later.Extends store) (id : Nat) :
    later.expander? id = store.expander? id := by
  rw [expander?, expander?, extended.expanders]

theorem Extends.builder (extended : later.Extends store) (id : Nat) :
    later.isBuilder id = store.isBuilder id := by
  rw [isBuilder, isBuilder, extended.builders]

theorem extends_intern (store : Store) (name : String) : (store.intern name).2.Extends store :=
  ⟨rfl, fun _ _ found => found, rfl, rfl, store.symbols.symbol_extends name⟩

theorem extends_newFunction (store : Store) (function : Function) :
    (store.newFunction function).2.Extends store := by
  refine ⟨rfl, fun ref other found => ?_, rfl, rfl, .refl _⟩
  obtain ⟨inside, _⟩ := Array.getElem?_eq_some_iff.mp found
  rw [newFunction, Array.getElem?_push_lt inside]
  exact (Array.getElem?_eq_getElem inside).symm.trans found

theorem newFunction_found (store : Store) (function : Function) :
    (store.newFunction function).2.functions[(store.newFunction function).1]? = some function :=
  Array.getElem?_push_size

/-! Parameters. -/

theorem map_eq_ok {ε α β : Type} {change : α → β} {result : Except ε α} {value : β}
    (mapped : result.map change = .ok value) : ∃ found, result = .ok found ∧ change found = value := by
  cases result with
  | error cause => cases mapped
  | ok found => exact ⟨found, rfl, Except.ok.inj mapped⟩

theorem mapError_eq_ok {ε δ α : Type} {change : ε → δ} {result : Except ε α} {value : α}
    (mapped : result.mapError change = .ok value) : result = .ok value := by
  cases result with
  | error cause => cases mapped
  | ok found => exact congrArg Except.ok (Except.ok.inj mapped)

theorem readParameters_any (later : Store) {values : List Value}
    {found : List Parameter × Option Symbol}
    (accepted : readParameters store values = .ok found) : readParameters later values = .ok found := by
  fun_induction readParameters store values generalizing found with
  | case1 => simpa [readParameters] using accepted
  | case2 symbol isRest last rest bindable => simp_all [readParameters]
  | case5 symbol notRest colon kindName others kind known ih =>
      obtain ⟨inner, told, rfl⟩ := map_eq_ok accepted
      simp [readParameters, notRest, colon, known, ih told, Except.map]
  | case8 symbol others notRest plain ih =>
      obtain ⟨inner, told, rfl⟩ := map_eq_ok accepted
      unfold readParameters
      simp [notRest, plain, ih told, Except.map]
  | _ => cases accepted

theorem Extends.sequenceItems (extended : later.Extends store) {value : Value} {items : List Value}
    (found : store.sequenceItems value = .ok items) : later.sequenceItems value = .ok items := by
  cases value with
  | array ref =>
      rw [Store.sequenceItems, extended.array]
      exact found
  | nil => exact found
  | pair mark head tail =>
      simp only [Store.sequenceItems, listItems] at found ⊢
      split at found
      · exact found
      · cases found
  | _ => cases found

theorem Extends.parameterList (extended : later.Extends store) {value : Value}
    {found : List Parameter × Option Symbol}
    (accepted : StackLisp.parameterList store value = .ok found) :
    StackLisp.parameterList later value = .ok found := by
  have listed
      (shape : StackLisp.parameterList store value = (do
        (readParameters store (← store.sequenceItems value)).mapError Error.compile))
      (laterShape : StackLisp.parameterList later value = (do
        (readParameters later (← later.sequenceItems value)).mapError Error.compile)) :
      StackLisp.parameterList later value = .ok found := by
    rw [shape] at accepted
    rw [laterShape]
    cases items : store.sequenceItems value with
    | error cause =>
        rw [items] at accepted
        cases accepted
    | ok values =>
        rw [items] at accepted
        rw [extended.sequenceItems items]
        have told := readParameters_any later (mapError_eq_ok accepted)
        change Except.mapError Error.compile (readParameters later values) = _
        rw [told]
        rfl
  cases value with
  | array => exact listed rfl rfl
  | nil => exact listed rfl rfl
  | pair => exact listed rfl rfl
  | _ => cases accepted

end Store

namespace Form

open Machine

section Reads

variable {α β : Type} {base : Store}

/-- A computation on a store that extends a known one: it leaves one that extends its own, and what
it gives is right in every store that extends that one. -/
def Reads (base : Store) (body : Machine α) (holds : Store → α → Prop) : Prop :=
  ∀ (world : World) (value : α) (after : World), world.store.Extends base →
    body world = .ok value after → after.store.Extends world.store ∧
      ∀ last : Store, last.Extends after.store → holds last value

theorem reads_pure {holds : Store → α → Prop} {value : α}
    (held : ∀ last : Store, last.Extends base → holds last value) :
    Reads base (pure value) holds := by
  intro world result after extended ran
  cases ran
  exact ⟨.refl _, fun last later => held last (later.trans extended)⟩

theorem reads_refuse {holds : Store → α → Prop} (problem : CompileProblem) :
    Reads base (refuse problem) holds := by
  intro world result after _ ran
  cases ran

theorem Reads.bind {first : Store → α → Prop} {holds : Store → β → Prop} {body : Machine α}
    {later : α → Machine β} (front : Reads base body first)
    (back : ∀ value, Reads base (later value) fun last result =>
      first last value → holds last result) :
    Reads base (body >>= later) holds := by
  intro world result after extended ran
  rw [bind_apply] at ran
  cases split : body world with
  | error stop between =>
      rw [split] at ran
      cases ran
  | ok value between =>
      rw [split] at ran
      obtain ⟨grown, firstHeld⟩ := front world value between extended split
      obtain ⟨grownMore, held⟩ := back value between result after (grown.trans extended) ran
      refine ⟨grownMore.trans grown, fun last lastExtends => ?_⟩
      exact held last lastExtends (firstHeld last (lastExtends.trans grownMore))

theorem Reads.weaken {first holds : Store → α → Prop} {body : Machine α}
    (reads : Reads base body first)
    (implied : ∀ last value, last.Extends base → first last value → holds last value) :
    Reads base body holds := by
  intro world value after extended ran
  obtain ⟨grown, held⟩ := reads world value after extended ran
  refine ⟨grown, fun last lastExtends => ?_⟩
  exact implied last value ((lastExtends.trans grown).trans extended) (held last lastExtends)

theorem reads_refuseWith {holds : Store → α → Prop} (read : Store → β)
    (problem : β → CompileProblem) :
    Reads base (do refuse (problem (← readStore read))) holds := by
  intro world result after _ ran
  cases ran

theorem Reads.look {holds : Store → β → Prop} {read : Store → α} {later : α → Machine β}
    (same : ∀ store : Store, store.Extends base → read store = read base)
    (back : Reads base (later (read base)) holds) :
    Reads base (readStore read >>= later) holds := by
  intro world result after extended ran
  have looked : readStore read world = .ok (read base) world :=
    congrArg (EStateM.Result.ok · world) (same world.store extended)
  rw [bind_apply, looked] at ran
  exact back world result after extended ran

theorem reads_ask {question : Store → Except Error α}
    (lasts : ∀ store later : Store, later.Extends store → ∀ value, question store = .ok value →
      question later = .ok value) :
    Reads base (ask question) fun last value => question last = .ok value := by
  intro world value after _ ran
  cases asked : question world.store with
  | error cause =>
      have failed : ask question world = .error (.error cause) world := by
        change ofExcept (question world.store) world = _
        rw [asked]
        rfl
      rw [failed] at ran
      cases ran
  | ok answer =>
      have answered : ask question world = .ok answer world := by
        change ofExcept (question world.store) world = _
        rw [asked]
        rfl
      rw [answered] at ran
      cases ran
      exact ⟨.refl _, fun last lastExtends => lasts _ last lastExtends _ asked⟩

theorem reads_intern (name : String) :
    Reads base (intern name) fun last symbol =>
      ∃ id, last.symbols.idOf? name = some id ∧ symbol = ⟨name, id, false⟩ := by
  intro world value after extended ran
  cases ran
  refine ⟨world.store.extends_intern name, fun last lastExtends => ?_⟩
  refine ⟨(world.store.symbols.intern name).1, ?_, rfl⟩
  exact lastExtends.symbols _ _ (world.store.symbols.idOf?_intern name)

theorem reads_newFunction (function : Function) :
    Reads base (onStore fun store => store.newFunction function) fun last ref =>
      last.functions[ref]? = some function := by
  intro world value after extended ran
  cases ran
  refine ⟨world.store.extends_newFunction function, fun last lastExtends => ?_⟩
  exact lastExtends.functions _ _ (world.store.newFunction_found function)

end Reads

def Says (value : Value) (last : Store) (form : Form) : Prop :=
  ∃ expression, Means last value expression ∧ expression.form = form

def AllSay (values : List Value) (last : Store) (forms : List Form) : Prop :=
  ∃ expressions, List.Forall₂ (Means last) values expressions ∧ Expression.forms expressions = forms

def ReadsFree (base : Store) (again : ReadPart) : Prop :=
  ∀ context value, MacroFree base value → Reads base (again .form context value) (Says value)

theorem reads_readQuote {base : Store} {value : Value} {arguments : List Value}
    (shape : value.special? = some (.quote, arguments)) :
    Reads base (readQuote arguments) (Says value) := by
  cases arguments with
  | nil => exact reads_refuse _
  | cons first later => exact reads_pure fun _ _ => ⟨_, .quote shape, rfl⟩

theorem reads_readExit {base : Store} {value : Value} {arguments : List Value} {exit : Exit}
    (context : Context) (shape : value.special? = some (.leave exit, arguments)) :
    Reads base (readExit context exit arguments) (Says value) := by
  unfold readExit
  split
  · split
    · exact reads_pure fun _ _ => ⟨_, .leave shape, rfl⟩
    · exact reads_refuse _
  · exact reads_refuse _

section Parts

variable {base : Store} {again : ReadPart} (parts : ReadsFree base again) (context : Context)
  {value : Value} {arguments : List Value}

include parts

theorem reads_readAll {values : List Value} (free : ∀ part ∈ values, MacroFree base part) :
    Reads base (readAll again context values) (AllSay values) := by
  induction values with
  | nil => exact reads_pure fun _ _ => ⟨[], .nil, rfl⟩
  | cons first later ih =>
      unfold readAll at ih ⊢
      rw [List.mapM_cons]
      refine (parts context first (free first (List.mem_cons_self ..))).bind fun form => ?_
      refine (ih fun part member => free part (List.mem_cons_of_mem _ member)).bind fun forms => ?_
      refine reads_pure fun last _ => ?_
      rintro ⟨expressions, meanLater, rfl⟩ ⟨expression, meansFirst, rfl⟩
      exact ⟨expression :: expressions, .cons meansFirst meanLater, rfl⟩

theorem reads_readConditions (stopsOn : Bool) {operands : List Value}
    (free : ∀ part ∈ operands, MacroFree base part) :
    Reads base (readConditions again context stopsOn operands) fun last form =>
      ∃ expressions, List.Forall₂ (Means last) operands expressions ∧
        (Expression.conditions stopsOn expressions).form = form := by
  induction operands with
  | nil => exact reads_pure fun _ _ => ⟨[], .nil, rfl⟩
  | cons first later ih =>
      have freeFirst := free first (List.mem_cons_self ..)
      cases later with
      | nil =>
          refine (parts context first freeFirst).weaken fun last form _ => ?_
          rintro ⟨expression, means, rfl⟩
          exact ⟨[expression], .cons means .nil, rfl⟩
      | cons second others =>
          refine (ih fun part member => free part (List.mem_cons_of_mem _ member)).bind fun rest => ?_
          refine (parts context first freeFirst).bind fun form => reads_pure fun last _ => ?_
          rintro ⟨expression, means, rfl⟩ ⟨expressions, meanLater, rfl⟩
          cases meanLater with
          | cons meansSecond meanOthers =>
              exact ⟨_, .cons means (.cons meansSecond meanOthers), rfl⟩

theorem reads_readCases {operands : List Value} (free : ∀ part ∈ operands, MacroFree base part) :
    Reads base (readCases again context operands) fun last form =>
      ∃ expressions, operands.length % 2 = 1 ∧ List.Forall₂ (Means last) operands expressions ∧
        (Expression.cases expressions).form = form := by
  match operands with
  | [] => exact reads_refuse _
  | [default] =>
      refine (parts context default (free default (List.mem_singleton_self _))).weaken
        fun last form _ => ?_
      rintro ⟨expression, means, rfl⟩
      exact ⟨[expression], rfl, .cons means .nil, rfl⟩
  | test :: chosen :: later =>
      have freeLater : ∀ part ∈ later, MacroFree base part := fun part member =>
        free part (List.mem_cons_of_mem _ (List.mem_cons_of_mem _ member))
      refine (reads_readCases freeLater).bind fun rest => ?_
      refine (parts context test (free test (by simp))).bind fun testForm => ?_
      refine (parts context chosen (free chosen (by simp))).bind fun chosenForm => ?_
      refine reads_pure fun last _ => ?_
      rintro ⟨whenTrue, meansChosen, rfl⟩ ⟨tested, meansTest, rfl⟩ ⟨expressions, odd, mean, rfl⟩
      refine ⟨tested :: whenTrue :: expressions, ?_, .cons meansTest (.cons meansChosen mean), rfl⟩
      rw [List.length_cons, List.length_cons]
      omega

theorem reads_readBinding (name : String) (free : ∀ part ∈ arguments.drop 1, MacroFree base part) :
    Reads base (readBinding again context name arguments) fun last bound =>
      ∃ target source expression, arguments = [target, source] ∧
        bindable? target = some bound.1 ∧ Means last source expression ∧
        expression.form = bound.2 := by
  unfold readBinding
  split
  next target source =>
    split
    next symbol named =>
      refine (parts context source (free source (by simp))).bind fun form => ?_
      refine reads_pure fun last _ => ?_
      rintro ⟨expression, means, same⟩
      exact ⟨target, source, expression, rfl, named, means, same⟩
    · exact reads_refuse _
  · exact reads_refuse _

theorem reads_readChoice (shape : value.special? = some (.choose, arguments))
    (free : ∀ part ∈ arguments, MacroFree base part) :
    Reads base (readChoice again context arguments) (Says value) := by
  unfold readChoice
  split
  next first second =>
    refine (parts context first (free first (by simp))).bind fun test => ?_
    refine (parts context second (free second (by simp))).bind fun whenTrue => ?_
    refine reads_pure fun last _ => ?_
    rintro ⟨whenTrue, meansTrue, rfl⟩ ⟨test, meansTest, rfl⟩
    exact ⟨_, .chooseTrue shape meansTest meansTrue, rfl⟩
  next first second third =>
    refine (parts context first (free first (by simp))).bind fun test => ?_
    refine (parts context second (free second (by simp))).bind fun whenTrue => ?_
    refine (parts context third (free third (by simp))).bind fun whenFalse => ?_
    refine reads_pure fun last _ => ?_
    rintro ⟨whenFalse, meansFalse, rfl⟩ ⟨whenTrue, meansTrue, rfl⟩ ⟨test, meansTest, rfl⟩
    exact ⟨_, .choose shape meansTest meansTrue meansFalse, rfl⟩
  · exact reads_refuse _

theorem reads_readFunction (name : String) (list : Value)
    (free : ∀ part ∈ arguments, MacroFree base part) :
    Reads base (readFunction again context name list arguments) fun last ref =>
      ∃ parameters rest expressions, parameterList last list = .ok (parameters, rest) ∧
        List.Forall₂ (Means last) arguments expressions ∧
        last.functions[ref]? = some ⟨name, .compiled parameters rest
          (functionCode (Expression.block expressions).form).toArray []⟩ := by
  unfold readFunction
  refine (reads_ask fun _ _ extended _ told => extended.parameterList told).bind fun listed => ?_
  refine (reads_readAll parts context.insideFunction free).bind fun forms => ?_
  refine (reads_newFunction _).weaken fun last ref _ found => ?_
  rintro ⟨expressions, mean, rfl⟩ told
  exact ⟨listed.1, listed.2, expressions, told, mean, found⟩

theorem reads_readAnonymous (shape : value.special? = some (.function, arguments))
    (free : ∀ part ∈ Special.parts base .function arguments, MacroFree base part) :
    Reads base (readAnonymous again context arguments) (Says value) := by
  unfold readAnonymous
  split
  next symbol list contents =>
    refine (reads_readFunction parts context symbol.name list free).bind fun ref => ?_
    refine reads_pure fun last _ => ?_
    rintro ⟨parameters, rest, expressions, told, mean, found⟩
    exact ⟨.function ref, .function shape told mean found, rfl⟩
  next list contents noName =>
    have contentsAreParts : Special.parts base .function (list :: contents) = contents := by
      cases list with
      | symbol name =>
          cases contents with
          | nil => rfl
          | cons parameters body => exact (noName name parameters body rfl rfl).elim
      | _ => rfl
    have freeContents : ∀ part ∈ contents, MacroFree base part := by
      rwa [contentsAreParts] at free
    refine (reads_readFunction parts context "__anon" list freeContents).bind fun ref => ?_
    refine reads_pure fun last _ => ?_
    rintro ⟨parameters, rest, expressions, told, mean, found⟩
    refine ⟨.function ref, .anonymous shape ?_ told mean found, rfl⟩
    rintro symbol rfl
    cases told
  · exact reads_refuse _

theorem reads_readNamed (shape : value.special? = some (.namedFunction, arguments))
    (free : ∀ part ∈ arguments.drop 2, MacroFree base part) :
    Reads base (readNamed again context arguments) (Says value) := by
  unfold readNamed
  split
  next symbol list contents =>
    refine (reads_readFunction parts context symbol.name list free).bind fun ref => ?_
    refine reads_pure fun last _ => ?_
    rintro ⟨parameters, rest, expressions, told, mean, found⟩
    exact ⟨.define symbol (.function ref), .namedFunction shape told mean found, rfl⟩
  · exact reads_refuse _

theorem reads_readPairs {items : List Value} (even : items.length % 2 = 0)
    (free : ∀ part ∈ everySecond items, MacroFree base part) :
    Reads base (readPairs again context items) fun last bound =>
      ∃ (pairs : List (Value × Value)) (values : List Expression),
        items = pairs.flatMap (fun pair => [pair.1, pair.2]) ∧
        pairs.map (fun pair => bindable? pair.1) = bound.1.map some ∧
        List.Forall₂ (Means last) (pairs.map Prod.snd) values ∧
        Expression.forms values = bound.2 := by
  match items with
  | [] => exact reads_pure fun _ _ => ⟨[], [], rfl, rfl, .nil, rfl⟩
  | [_] => cases even
  | target :: source :: later =>
      unfold readPairs
      split
      next symbol named =>
        have freeSource := free source (List.mem_cons_self ..)
        have freeLater : ∀ part ∈ everySecond later, MacroFree base part := fun part member =>
          free part (List.mem_cons_of_mem _ member)
        have evenLater : later.length % 2 = 0 := by
          rw [List.length_cons, List.length_cons] at even
          omega
        refine (parts context source freeSource).bind fun form => ?_
        refine (reads_readPairs evenLater freeLater).bind fun bound => reads_pure fun last _ => ?_
        rintro ⟨pairs, values, rfl, symbols, mean, same⟩ ⟨expression, means, rfl⟩
        refine ⟨(target, source) :: pairs, expression :: values, rfl, ?_, .cons means mean, ?_⟩
        · rw [List.map_cons, List.map_cons, symbols, named]
        · rw [Expression.forms, same]
      · exact reads_refuseWith _ _

theorem reads_readBind (shape : value.special? = some (.bind, arguments))
    (free : ∀ part ∈ Special.parts base .bind arguments, MacroFree base part) :
    Reads base (readBind again context arguments) (Says value) := by
  unfold readBind
  split
  next ref contents =>
    refine Reads.look (fun _ extended => congrArg Array.toList (extended.array ref)) ?_
    have freePairs : ∀ part ∈ everySecond (base.array ref).toList, MacroFree base part :=
      fun part member => free part (List.mem_append_left _ member)
    have freeContents : ∀ part ∈ contents, MacroFree base part :=
      fun part member => free part (List.mem_append_right _ member)
    split
    · exact reads_refuse _
    next paired =>
      have even : (base.array ref).toList.length % 2 = 0 := by omega
      refine (reads_readPairs parts context even freePairs).bind fun bound => ?_
      refine (reads_readAll parts context freeContents).bind fun forms => ?_
      refine reads_pure fun last extended => ?_
      rintro ⟨expressions, mean, rfl⟩ ⟨pairs, values, items, symbols, meanValues, same⟩
      refine ⟨.bind bound.1 values expressions, .bind shape ?_ symbols meanValues mean, ?_⟩
      · rw [extended.array]
        exact items
      · rw [Expression.form, same]
  · exact reads_refuse _

theorem reads_readWhile (shape : value.special? = some (.whileLoop, arguments))
    (free : ∀ part ∈ arguments, MacroFree base part) :
    Reads base (readWhile again context arguments) (Says value) := by
  unfold readWhile
  split
  next source contents =>
    have freeContents : ∀ part ∈ contents, MacroFree base part := fun part member =>
      free part (List.mem_cons_of_mem _ member)
    refine (parts context source (free source (List.mem_cons_self ..))).bind fun test => ?_
    refine (reads_readAll parts context.insideLoop freeContents).bind fun forms => ?_
    refine reads_pure fun last _ => ?_
    rintro ⟨expressions, mean, rfl⟩ ⟨test, means, rfl⟩
    exact ⟨_, .whileLoop shape means mean, rfl⟩
  · exact reads_refuse _

theorem reads_readFor (shape : value.special? = some (.forLoop, arguments))
    (free : ∀ part ∈ Special.parts base .forLoop arguments, MacroFree base part) :
    Reads base (readFor again context arguments) (Says value) := by
  unfold readFor
  split
  next ref contents =>
    refine Reads.look (fun _ extended => congrArg Array.toList (extended.array ref)) ?_
    have freeContents : ∀ part ∈ contents, MacroFree base part :=
      fun part member => free part (List.mem_append_right _ member)
    have freeHeader : ∀ part ∈ (base.array ref).toList, MacroFree base part :=
      fun part member => free part (List.mem_append_left _ member)
    split
    next first second third header =>
      rw [header] at freeHeader
      refine (parts context first (freeHeader first (by simp))).bind fun start => ?_
      refine (parts context second (freeHeader second (by simp))).bind fun test => ?_
      refine (reads_readAll parts context.insideLoop freeContents).bind fun forms => ?_
      refine (parts context.insideLoop third (freeHeader third (by simp))).bind fun step => ?_
      refine reads_pure fun last extended => ?_
      rintro ⟨step, meansStep, rfl⟩ ⟨expressions, mean, rfl⟩ ⟨test, meansTest, rfl⟩
        ⟨start, meansStart, rfl⟩
      rw [← extended.array] at header
      exact ⟨_, .forLoop shape header meansStart meansTest meansStep mean, rfl⟩
    · exact reads_refuse _
  · exact reads_refuse _

theorem reads_readSpecial (name : String) (special : Special)
    (shape : value.special? = some (special, arguments)) (noMacro : special.isMacro = false)
    (free : ∀ part ∈ special.parts base arguments, MacroFree base part) :
    Reads base (readSpecial again context name special arguments) (Says value) := by
  cases special with
  | quote => exact reads_readQuote shape
  | conjunction =>
      refine (reads_readConditions parts context false free).weaken fun last form _ => ?_
      rintro ⟨expressions, mean, same⟩
      exact ⟨_, .conjunction shape mean, same⟩
  | disjunction =>
      refine (reads_readConditions parts context true free).weaken fun last form _ => ?_
      rintro ⟨expressions, mean, same⟩
      exact ⟨_, .disjunction shape mean, same⟩
  | cond =>
      refine (reads_readCases parts context free).weaken fun last form _ => ?_
      rintro ⟨expressions, odd, mean, same⟩
      exact ⟨_, .cond shape odd mean, same⟩
  | define =>
      refine (reads_readBinding parts context name free).bind fun bound => reads_pure fun last _ => ?_
      rintro ⟨target, source, expression, rfl, named, means, same⟩
      exact ⟨_, .define shape named means, congrArg (Form.define bound.1) same⟩
  | assign =>
      refine (reads_readBinding parts context name free).bind fun bound => reads_pure fun last _ => ?_
      rintro ⟨target, source, expression, rfl, named, means, same⟩
      exact ⟨_, .assign shape named means, congrArg (Form.assign bound.1) same⟩
  | choose => exact reads_readChoice parts context shape free
  | sequence =>
      refine (reads_readAll parts context free).bind fun forms => reads_pure fun last _ => ?_
      rintro ⟨expressions, mean, rfl⟩
      exact ⟨_, .block shape mean, rfl⟩
  | function => exact reads_readAnonymous parts context shape free
  | namedFunction => exact reads_readNamed parts context shape free
  | bind => exact reads_readBind parts context shape free
  | whileLoop => exact reads_readWhile parts context shape free
  | forLoop => exact reads_readFor parts context shape free
  | leave exit => exact reads_readExit context shape
  | template => cases noMacro
  | infixBlock => cases noMacro
  | expander => cases noMacro

theorem reads_readNamedForm (perform : Perform) {symbol : Symbol}
    (shape : value.named? = some (symbol, arguments)) (free : MacroFree base value) :
    Reads base (readNamedForm again context perform symbol arguments) (Says value) := by
  obtain ⟨noMacro, freeParts⟩ := free
  rw [Value.parts_of_named shape, Value.namedParts] at freeParts
  simp only [Value.usesMacro, shape, Option.any_some, Value.namesMacro] at noMacro
  unfold readNamedForm
  split
  next special isSpecial =>
    rw [isSpecial] at freeParts noMacro
    have specialShape := Value.special_of_named shape isSpecial
    exact reads_readSpecial parts context symbol.name special specialShape noMacro freeParts
  next notSpecial =>
    rw [notSpecial] at freeParts noMacro
    obtain ⟨noExpander, noBuilder⟩ := Bool.or_eq_false_iff.mp noMacro
    have calledShape := Value.called_of_named shape notSpecial
    refine Reads.look (fun _ extended => extended.expander symbol.id) ?_
    rw [Option.isSome_eq_false_iff, Option.isNone_iff_eq_none] at noExpander
    rw [noExpander]
    refine Reads.look (fun _ extended => extended.builder symbol.id) ?_
    rw [noBuilder]
    refine (reads_readAll parts context freeParts).bind fun forms => reads_pure fun last _ => ?_
    rintro ⟨expressions, mean, rfl⟩
    exact ⟨_, .call calledShape mean, rfl⟩

theorem reads_readDispatch {callee : Value} (shape : value.dispatched? = some (callee, arguments))
    (free : ∀ part ∈ callee :: arguments, MacroFree base part) :
    Reads base (readDispatch again context callee arguments) (Says value) := by
  refine (parts context callee (free callee (List.mem_cons_self ..))).bind fun calleeForm => ?_
  refine (reads_readAll parts context fun part member =>
    free part (List.mem_cons_of_mem _ member)).bind fun forms => reads_pure fun last _ => ?_
  rintro ⟨expressions, mean, rfl⟩ ⟨head, means, rfl⟩
  exact ⟨_, .dispatch shape means mean, rfl⟩

theorem reads_readForm (perform : Perform) (free : MacroFree base value) :
    Reads base (readForm again context perform value) (Says value) := by
  unfold readForm
  split
  next symbol =>
    refine reads_pure fun last _ => ?_
    split
    next constant => exact ⟨_, .constant constant, rfl⟩
    next plain =>
      obtain ⟨noColon, noSigil⟩ := Bool.or_eq_false_iff.mp (Bool.eq_false_iff.mpr plain)
      exact ⟨_, .variable noColon noSigil, rfl⟩
  next ref =>
    refine Reads.look (fun _ extended => congrArg Array.toList (extended.array ref)) ?_
    obtain ⟨_, freeParts⟩ := free
    have freeItems : ∀ part ∈ (base.array ref).toList, MacroFree base part := freeParts
    refine (reads_readAll parts context freeItems).bind fun forms => ?_
    refine (reads_intern "array").bind fun symbol => reads_pure fun last extended => ?_
    rintro ⟨id, known, rfl⟩ ⟨expressions, mean, rfl⟩
    rw [← extended.array] at mean
    exact ⟨_, .array known mean, rfl⟩
  next mark head tail =>
    split
    · exact reads_refuseWith _ _
    next items =>
      simp only [Value.items?, Value.spine] at items
      split at items
      next found shape =>
        obtain rfl := Option.some.inj items
        exact absurd (congrArg Prod.fst shape) (List.cons_ne_nil _ _)
      · cases items
    next callee arguments items =>
      split
      next symbol named =>
        have shape := Value.named_of_items items
        rw [named] at shape
        exact reads_readNamedForm parts context perform shape free
      next notNamed =>
        have noName := Value.named_of_items items
        rw [notNamed] at noName
        have shape := Value.dispatched_of_items items notNamed
        obtain ⟨_, freeParts⟩ := free
        rw [Value.parts_of_dispatched noName shape] at freeParts
        exact reads_readDispatch parts context shape freeParts
  next notSymbol notArray notPair =>
    refine reads_pure fun last _ => ⟨.constant value, .constant ?_, rfl⟩
    cases value with
    | symbol s => exact (notSymbol s rfl).elim
    | array ref => exact (notArray ref rfl).elim
    | pair mark head tail => exact (notPair mark head tail rfl).elim
    | _ => rfl

end Parts

theorem readsFree_read (base : Store) (perform : Perform) (fuel : Nat) :
    ReadsFree base (read perform fuel) := by
  induction fuel with
  | zero =>
      intro context value _ world result after _ ran
      cases ran
  | succ fuel ih =>
      intro context value free
      exact reads_readForm ih context perform free

end Form

end StackLisp
