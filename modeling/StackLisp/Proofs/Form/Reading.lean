import StackLisp.Form.Reading
import StackLisp.Proofs.Form.Prototype
import StackLisp.Proofs.Machine.Keeping

/-!
Reading is tame, and gives forms in which every way out of a loop stands inside of one. The functions
that it makes on the way were generated from such forms, and a form closes over no others: they are
found in every store that goes on from the one that reading leaves.
-/

namespace StackLisp

namespace Machine

structure Produces (final : Store) {α : Type} (holds known : α → Prop) (body : Perform → Machine α) :
    Prop where
  tame : Tame holds body
  known : ∀ perform, Keeping.functions.Serves perform → ∀ world value after,
    body perform world = .ok value after →
      after.store.functions.toList <+: final.functions.toList → known value

section Produces

variable {final : Store} {α β : Type} {holds known : α → Prop}

theorem Produces.result {value : α} (held : holds value) (also : known value) :
    Produces final holds known fun _ => pure value := by
  refine ⟨.result held, fun perform _ world value after ran _ => ?_⟩
  cases ran
  exact also

theorem Produces.failure {cause : Error} (spared : cause.isFault = false) :
    Produces final holds known fun _ => fail cause :=
  ⟨.failure spared, fun _ _ _ _ _ ran => by cases ran⟩

/-- The store between two computations lies before the one that the second leaves, so what is known
of the first result is known behind both. -/
theorem Produces.andThen {first firstKnown : α → Prop} {holds known : β → Prop}
    {body : Perform → Machine α} {later : Perform → α → Machine β}
    (produces : Produces final first firstKnown body)
    (others : ∀ value, first value →
      Produces final holds (fun result => firstKnown value → known result)
        fun perform => later perform value) :
    Produces final holds known fun perform => body perform >>= later perform := by
  refine ⟨produces.tame.andThen fun value held => (others value held).tame, ?_⟩
  intro perform serves world result after ran before
  rw [bind_apply] at ran
  cases split : body perform world with
  | ok value between =>
      rw [split] at ran
      have others := others value (produces.tame.held split)
      have added := (others.tame.leaves serves).of_ok trivial ran
      exact others.known perform serves between result after ran before
        (produces.known perform serves world value between split (added.trans before))
  | error stop between =>
      rw [split] at ran
      cases ran

theorem Tame.andProduces {first : α → Prop} {holds known : β → Prop}
    {body : Perform → Machine α} {later : Perform → α → Machine β} (tame : Tame first body)
    (others : ∀ value, first value → Produces final holds known fun perform => later perform value) :
    Produces final holds known fun perform => body perform >>= later perform := by
  have produces : Produces final first (fun _ => True) body := ⟨tame, fun _ _ _ _ _ _ _ => trivial⟩
  refine produces.andThen fun value held => ?_
  obtain ⟨tame, known⟩ := others value held
  exact ⟨tame, fun perform serves world value after ran before _ =>
    known perform serves world value after ran before⟩

end Produces

end Machine

namespace Form

open Machine

abbrev EnclosedIn (context : Context) (form : Form) : Prop :=
  form.enclosed context.inLoop = true

abbrev AllEnclosedIn (context : Context) (forms : List Form) : Prop :=
  allEnclosed context.inLoop forms = true

theorem body_enclosed {context : Context} {forms : List Form}
    (closed : AllEnclosedIn context forms) : EnclosedIn context (body forms) := by
  cases forms with
  | nil => rfl
  | cons first later => exact closed

theorem constants_enclosed (context : Context) (values : List Value) :
    AllEnclosedIn context (values.map constant) := by
  apply allEnclosed_iff.mpr
  intro form member
  obtain ⟨value, _, rfl⟩ := List.mem_map.mp member
  rfl

abbrev MadeIn (store : Store) (form : Form) : Prop := ∀ ref ∈ form.functions, Prototype store ref

abbrev AllMadeIn (store : Store) (forms : List Form) : Prop :=
  ∀ ref ∈ allFunctions forms, Prototype store ref

theorem body_made {store : Store} {forms : List Form} (made : AllMadeIn store forms) :
    MadeIn store (body forms) := by
  cases forms with
  | nil => simp [MadeIn, body, nil, functions]
  | cons first later => exact made

theorem constants_made (store : Store) (values : List Value) :
    AllMadeIn store (values.map constant) := by
  induction values with
  | nil => simp [AllMadeIn, allFunctions]
  | cons value later ih => simpa [AllMadeIn, allFunctions, functions] using ih

section Produces

variable {final : Store} {α : Type} {holds known : α → Prop}

theorem produces_refuse (problem : CompileProblem) :
    Produces final holds known fun _ => (refuse problem : Machine α) := .failure rfl

theorem produces_refuseWith {γ : Type} (read : Store → γ) (problem : γ → CompileProblem) :
    Produces final holds known fun _ => (do refuse (problem (← readStore read)) : Machine α) :=
  (tame_readStore read).andProduces fun _ _ => produces_refuse _

abbrev ProducesForm (final : Store) (context : Context) (body : Perform → Machine Form) : Prop :=
  Produces final (EnclosedIn context) (MadeIn final) body

abbrev ProducesForms (final : Store) (context : Context) (body : Perform → Machine (List Form)) :
    Prop :=
  Produces final (AllEnclosedIn context) (AllMadeIn final) body

end Produces

section Shapes

variable (final : Store) (context : Context)

theorem produces_quote (arguments : List Value) :
    ProducesForm final context fun _ => readQuote arguments := by
  unfold readQuote
  split
  · exact produces_refuse _
  next first later =>
    refine .result ?_ (List.forall_mem_append.mpr ⟨by simp [functions], constants_made final later⟩)
    simp [EnclosedIn, enclosed, constants_enclosed context later]

theorem produces_exit (exit : Exit) (arguments : List Value) :
    ProducesForm final context fun _ => readExit context exit arguments := by
  unfold readExit
  split
  · split
    next inLoop => exact .result inLoop (by simp [MadeIn, functions])
    · exact produces_refuse _
  · exact produces_refuse _

end Shapes

section Parts

def ProducesParts (final : Store) (again : Perform → ReadPart) : Prop :=
  ∀ mode context value, ProducesForm final context fun perform => again perform mode context value

variable {final : Store} {again : Perform → ReadPart} (parts : ProducesParts final again)
  (context : Context)

include parts

theorem produces_all (values : List Value) :
    ProducesForms final context fun perform => readAll (again perform) context values := by
  induction values with
  | nil => exact .result rfl (by simp [AllMadeIn, allFunctions])
  | cons value later ih =>
      unfold readAll at ih ⊢
      simp only [List.mapM_cons]
      refine (parts .form context value).andThen fun form closed => ?_
      refine ih.andThen fun forms allClosed => .result ?_ fun others made => ?_
      · simp [AllEnclosedIn, allEnclosed, closed, allClosed]
      · exact List.forall_mem_append.mpr ⟨made, others⟩

theorem produces_conditions (stopsOn : Bool) (arguments : List Value) :
    ProducesForm final context fun perform =>
      readConditions (again perform) context stopsOn arguments := by
  induction arguments with
  | nil => exact .result rfl (by simp [MadeIn, functions])
  | cons first later ih =>
      cases later with
      | nil => exact parts .form context first
      | cons second others =>
          simp only [readConditions]
          refine ih.andThen fun others othersClosed => ?_
          refine (parts .form context first).andThen fun form closed => .result ?_ fun made others => ?_
          · simp [EnclosedIn, enclosed, closed, othersClosed]
          · exact List.forall_mem_append.mpr ⟨made, others⟩

theorem produces_cases (arguments : List Value) :
    ProducesForm final context fun perform => readCases (again perform) context arguments := by
  match arguments with
  | [] => exact produces_refuse _
  | [otherwise] => exact parts .form context otherwise
  | test :: value :: later =>
      refine (produces_cases later).andThen fun otherwise otherwiseClosed => ?_
      refine (parts .form context test).andThen fun test testClosed => ?_
      refine (parts .form context value).andThen fun value valueClosed => .result ?_ ?_
      · simp [EnclosedIn, enclosed, otherwiseClosed, testClosed, valueClosed]
      · exact fun value test otherwise => List.forall_mem_append.mpr
          ⟨test, List.forall_mem_append.mpr ⟨value, otherwise⟩⟩

theorem produces_binding (name : String) (arguments : List Value) :
    Produces final (fun bound => EnclosedIn context bound.2) (fun bound => MadeIn final bound.2)
      fun perform => readBinding (again perform) context name arguments := by
  unfold readBinding
  split
  · split
    · exact (parts .form context _).andThen fun form closed => .result closed fun made => made
    · exact produces_refuse _
  · exact produces_refuse _

theorem produces_choice (arguments : List Value) :
    ProducesForm final context fun perform => readChoice (again perform) context arguments := by
  unfold readChoice
  split
  · refine (parts .form context _).andThen fun test testClosed => ?_
    refine (parts .form context _).andThen fun whenTrue trueClosed => .result ?_ ?_
    · simp [EnclosedIn, enclosed, nil, testClosed, trueClosed]
    · intro whenTrue test
      simp only [MadeIn, functions, nil, List.append_nil]
      exact List.forall_mem_append.mpr ⟨test, whenTrue⟩
  · refine (parts .form context _).andThen fun test testClosed => ?_
    refine (parts .form context _).andThen fun whenTrue trueClosed => ?_
    refine (parts .form context _).andThen fun whenFalse falseClosed => .result ?_ ?_
    · simp [EnclosedIn, enclosed, testClosed, trueClosed, falseClosed]
    · exact fun whenFalse whenTrue test => List.forall_mem_append.mpr
        ⟨test, List.forall_mem_append.mpr ⟨whenTrue, whenFalse⟩⟩
  · exact produces_refuse _

omit parts in
theorem produces_newFunction (name : String) (parameters : List Parameter) (rest : Option Symbol)
    {body : Form} (closed : body.enclosed false = true) :
    Produces final (fun _ => True) (fun ref => MadeIn final body → Prototype final ref) fun _ =>
      onStore fun store => store.newFunction
        ⟨name, .compiled parameters rest (functionCode body).toArray []⟩ := by
  refine ⟨.change (fun _ => trivial) fun store => store.grows_newFunction ?_, ?_⟩
  · exact ⟨parameters, rest, body, [], closed, rfl⟩
  · intro perform _ world ref after ran before made
    cases ran
    obtain ⟨added, same⟩ := before
    have found : final.functions[world.store.functions.size]? =
        some ⟨name, .compiled parameters rest (functionCode body).toArray []⟩ := by
      rw [← Array.getElem?_toList, ← same]
      simp
    exact .made found closed made

theorem produces_function (name : String) (parameters : Value) (contents : List Value) :
    Produces final (fun _ => True) (Prototype final) fun perform =>
      readFunction (again perform) context name parameters contents := by
  unfold readFunction
  refine (tame_ask fun store => parameterList_harmless store parameters).andProduces fun listed _ => ?_
  refine (produces_all parts context.insideFunction contents).andThen fun forms closed => ?_
  obtain ⟨tame, known⟩ := @produces_newFunction final name listed.1 listed.2 _
    (body_enclosed closed)
  exact ⟨tame, fun perform serves world ref after ran before made =>
    known perform serves world ref after ran before (body_made made)⟩

theorem produces_anonymous (arguments : List Value) :
    ProducesForm final context fun perform => readAnonymous (again perform) context arguments := by
  unfold readAnonymous
  split
  · refine (produces_function parts context _ _ _).andThen fun _ _ => .result rfl fun made => ?_
    exact List.forall_mem_singleton.mpr made
  · refine (produces_function parts context _ _ _).andThen fun _ _ => .result rfl fun made => ?_
    exact List.forall_mem_singleton.mpr made
  · exact produces_refuse _

theorem produces_named (arguments : List Value) :
    ProducesForm final context fun perform => readNamed (again perform) context arguments := by
  unfold readNamed
  split
  · refine (produces_function parts context _ _ _).andThen fun _ _ => .result rfl fun made => ?_
    exact List.forall_mem_singleton.mpr made
  · exact produces_refuse _

theorem produces_pairs (arguments : List Value) :
    Produces final (fun pairs => AllEnclosedIn context pairs.2) (fun pairs => AllMadeIn final pairs.2)
      fun perform => readPairs (again perform) context arguments := by
  match arguments with
  | [] => exact .result rfl (by simp [AllMadeIn, allFunctions])
  | [_] => exact .result rfl (by simp [AllMadeIn, allFunctions])
  | target :: value :: later =>
      unfold readPairs
      split
      · refine (parts .form context value).andThen fun form closed => ?_
        refine (produces_pairs later).andThen fun pairs pairsClosed => .result ?_ fun others made => ?_
        · simp [AllEnclosedIn, allEnclosed, closed, pairsClosed]
        · exact List.forall_mem_append.mpr ⟨made, others⟩
      · exact produces_refuseWith _ _

theorem produces_scope (bindings contents : List Value) :
    ProducesForm final context fun perform => (do
      let (symbols, values) ← readPairs (again perform) context bindings
      return .bind symbols values (body (← readAll (again perform) context contents))) := by
  refine (produces_pairs parts context bindings).andThen fun pairs pairsClosed => ?_
  refine (produces_all parts context contents).andThen fun forms closed => ?_
  refine .result ?_ fun others made => ?_
  · simp [EnclosedIn, enclosed, pairsClosed, body_enclosed closed]
  · exact List.forall_mem_append.mpr ⟨made, body_made others⟩

theorem produces_bind (arguments : List Value) :
    ProducesForm final context fun perform => readBind (again perform) context arguments := by
  unfold readBind
  split
  next ref contents =>
    refine (tame_readStore _).andProduces fun bindings _ => ?_
    have bound := produces_scope parts context bindings contents
    split
    · exact Tame.andProduces (.failure rfl) fun _ (_ : True) => bound
    · exact bound
  · exact produces_refuse _

theorem produces_while (arguments : List Value) :
    ProducesForm final context fun perform => readWhile (again perform) context arguments := by
  unfold readWhile
  split
  · refine (parts .form context _).andThen fun test testClosed => ?_
    refine (produces_all parts context.insideLoop _).andThen fun body bodyClosed =>
      .result ?_ fun made test => ?_
    · rw [EnclosedIn, enclosed, testClosed, Bool.true_and]
      exact bodyClosed
    · exact List.forall_mem_append.mpr ⟨test, made⟩
  · exact produces_refuse _

theorem produces_for (arguments : List Value) :
    ProducesForm final context fun perform => readFor (again perform) context arguments := by
  unfold readFor
  split
  · refine (tame_readStore _).andProduces fun header _ => ?_
    split
    · refine (parts .form context _).andThen fun start startClosed => ?_
      refine (parts .form context _).andThen fun test testClosed => ?_
      refine (produces_all parts context.insideLoop _).andThen fun body bodyClosed => ?_
      refine (parts .form context.insideLoop _).andThen fun step stepClosed => .result ?_ ?_
      · have closed : (step.enclosed true && allEnclosed true body) = true :=
          Bool.and_eq_true_iff.mpr ⟨stepClosed, bodyClosed⟩
        rwa [EnclosedIn, enclosed, startClosed, testClosed, Bool.true_and, Bool.true_and]
      · intro step body test start
        refine List.forall_mem_append.mpr ⟨start, List.forall_mem_append.mpr ⟨test, ?_⟩⟩
        exact List.forall_mem_append.mpr ⟨body, step⟩
    · exact produces_refuse _
  · exact produces_refuse _

theorem produces_template (arguments : List Value) :
    ProducesForm final context fun perform => readTemplate (again perform) context arguments := by
  unfold readTemplate
  split
  · exact parts .template context _
  · exact produces_refuse _

theorem produces_infix (arguments : List Value) :
    ProducesForm final context fun perform => readInfix (again perform) context arguments := by
  unfold readInfix
  split
  · refine (tame_readStore _).andProduces fun items _ => ?_
    split
    · exact .result rfl (by simp [MadeIn, nil, functions])
    · have compiled : Harmless ((InfixTree.ofItems items).mapError Error.compile) := by
        cases InfixTree.ofItems items with
        | ok _ => exact harmless_ok _
        | error _ => exact harmless_error rfl
      refine (tame_ofExcept compiled).andProduces fun grouped _ => ?_
      obtain ⟨tree, extra⟩ := grouped
      dsimp only
      split
      · exact produces_refuseWith _ _
      · refine (tame_onStore fun store => store.toValue_keeps tree).andProduces fun value _ => ?_
        exact parts .form context value
  · exact produces_refuse _

theorem produces_expander (arguments : List Value) :
    ProducesForm final context fun perform => readExpander (again perform) context arguments := by
  unfold readExpander
  split
  · split
    · refine (produces_function parts context _ _ _).tame.andProduces fun ref _ => ?_
      refine (tame_log _ _).andProduces fun _ _ => ?_
      exact (tame_onStore fun store => store.addExpander_keeps _ ref).andProduces fun _ _ =>
        .result rfl (by simp [MadeIn, nil, functions])
    · exact produces_refuse _
  · exact produces_refuse _

theorem produces_special (name : String) (special : Special) (arguments : List Value) :
    ProducesForm final context fun perform =>
      readSpecial (again perform) context name special arguments := by
  cases special with
  | quote => exact produces_quote final context arguments
  | conjunction => exact produces_conditions parts context false arguments
  | disjunction => exact produces_conditions parts context true arguments
  | cond => exact produces_cases parts context arguments
  | define =>
      exact (produces_binding parts context name arguments).andThen fun _ closed =>
        .result closed fun made => made
  | assign =>
      exact (produces_binding parts context name arguments).andThen fun _ closed =>
        .result closed fun made => made
  | choose => exact produces_choice parts context arguments
  | sequence =>
      exact (produces_all parts context arguments).andThen fun _ closed =>
        .result (body_enclosed closed) body_made
  | function => exact produces_anonymous parts context arguments
  | namedFunction => exact produces_named parts context arguments
  | bind => exact produces_bind parts context arguments
  | whileLoop => exact produces_while parts context arguments
  | forLoop => exact produces_for parts context arguments
  | leave exit => exact produces_exit final context exit arguments
  | template => exact produces_template parts context arguments
  | infixBlock => exact produces_infix parts context arguments
  | expander => exact produces_expander parts context arguments

theorem produces_namedForm (symbol : Symbol) (arguments : List Value) :
    ProducesForm final context fun perform =>
      readNamedForm (again perform) context perform symbol arguments := by
  unfold readNamedForm
  split
  · exact produces_special parts context _ _ arguments
  · refine (tame_readStore _).andProduces fun expander _ => ?_
    split
    next expander =>
      have expanded : ProducesForm final context fun perform => (do
          let expansion ← expandWith perform expander arguments
          again perform .form context.insideExpansion expansion) :=
        Tame.applyApart.andProduces fun expansion _ => parts .form context.insideExpansion expansion
      split
      · exact Tame.andProduces (.failure rfl) fun _ (_ : True) => expanded
      · exact expanded
    · refine (tame_readStore _).andProduces fun builder _ => ?_
      split
      · exact .result (constants_enclosed context arguments) (constants_made final arguments)
      · exact (produces_all parts context arguments).andThen fun _ closed =>
          .result closed fun made => made

theorem produces_dispatch (callee : Value) (arguments : List Value) :
    ProducesForm final context fun perform =>
      readDispatch (again perform) context callee arguments := by
  refine (parts .form context callee).andThen fun callee calleeClosed => ?_
  refine (produces_all parts context arguments).andThen fun forms closed =>
    .result ?_ fun others made => ?_
  · simp [EnclosedIn, enclosed, calleeClosed, closed]
  · exact List.forall_mem_append.mpr ⟨made, others⟩

theorem produces_form (value : Value) :
    ProducesForm final context fun perform => readForm (again perform) context perform value := by
  unfold readForm
  split
  · split
    · exact .result rfl (by simp [MadeIn, functions])
    · exact .result rfl (by simp [MadeIn, functions])
  · refine (tame_readStore _).andProduces fun items _ => ?_
    refine (produces_all parts context items).andThen fun forms closed => ?_
    exact (tame_intern _).andProduces fun _ _ => .result closed fun made => made
  · split
    · exact produces_refuseWith _ _
    · exact .result rfl (by simp [MadeIn, nil, functions])
    · split
      · exact produces_namedForm parts context _ _
      · exact produces_dispatch parts context _ _
  · exact .result rfl (by simp [MadeIn, functions])

theorem produces_segment (wrap : Symbol) (item : Value) :
    ProducesForm final context fun perform => readSegment (again perform) context wrap item := by
  unfold readSegment
  split
  · exact parts .form context _
  · refine (parts .template context item).andThen fun form closed => .result ?_ fun made => ?_
    · simp [EnclosedIn, enclosed, allEnclosed, closed]
    · simpa [MadeIn, functions, allFunctions] using made

theorem produces_segments (wrap : Symbol) (items : List Value) :
    ProducesForms final context fun perform =>
      items.mapM (readSegment (again perform) context wrap) := by
  induction items with
  | nil => exact .result rfl (by simp [AllMadeIn, allFunctions])
  | cons item later ih =>
      simp only [List.mapM_cons]
      refine (produces_segment parts context wrap item).andThen fun form closed => ?_
      refine ih.andThen fun forms allClosed => .result ?_ fun others made => ?_
      · simp [AllEnclosedIn, allEnclosed, closed, allClosed]
      · exact List.forall_mem_append.mpr ⟨made, others⟩

theorem produces_templateOf (value : Value) :
    ProducesForm final context fun perform => readTemplateOf (again perform) context value := by
  unfold readTemplateOf
  split
  · split
    · exact .result rfl (by simp [MadeIn, functions])
    · split
      · exact parts .form context _
      · refine (tame_intern _).andProduces fun wrap _ => ?_
        refine (produces_segments parts context wrap _).andThen fun segments closed => ?_
        exact (tame_intern _).andProduces fun _ _ => .result closed fun made => made
  · refine (tame_readStore _).andProduces fun items _ => ?_
    refine (tame_intern _).andProduces fun wrap _ => ?_
    refine (produces_segments parts context wrap _).andThen fun segments closed => ?_
    refine (tame_intern _).andProduces fun _ _ => .result ?_ fun made => ?_
    · simp [EnclosedIn, enclosed, allEnclosed, closed]
    · simpa [MadeIn, functions, allFunctions] using made
  · exact .result rfl (by simp [MadeIn, functions])

end Parts

theorem producesParts_read (final : Store) (fuel : Nat) :
    ProducesParts final fun perform => read perform fuel := by
  induction fuel with
  | zero => exact fun mode context value => ⟨.outOfFuel, fun _ _ _ _ _ ran => by cases ran⟩
  | succ fuel ih =>
      intro mode context value
      cases mode with
      | form => exact produces_form ih context value
      | template => exact produces_templateOf ih context value

theorem tame_read (fuel : Nat) (mode : Reading) (context : Context) (value : Value) :
    Tame (EnclosedIn context) fun perform => read perform fuel mode context value :=
  (producesParts_read default fuel mode context value).tame

theorem produces_program (final : Store) (fuel : Nat) (values : List Value) :
    ProducesForms final .start fun perform => readProgram perform fuel values :=
  produces_all (producesParts_read final fuel) .start values

theorem tame_readProgram (fuel : Nat) (values : List Value) :
    Tame (fun forms => allEnclosed false forms = true) fun perform =>
      readProgram perform fuel values :=
  (produces_program default fuel values).tame

end Form

end StackLisp
