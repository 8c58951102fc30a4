import StackLisp.Proofs.Meaning.Filling

/-!
Quoting a template is substitution. What comes out is the template with the values of its forms in their
places; a template without forms comes to a copy of itself, and copies are told to be equal by a
bisimulation between the two. A form must not bind anew the names that the code of a template calls.
-/

namespace StackLisp

namespace Store

section Copies

variable {store later : Store} {values : Value → Prop}

structure Retains (store later : Store) (values : Value → Prop) : Prop where
  there : ∀ ref, values (.array ref) → ref < later.arrays.size
  arrays : ∀ ref, values (.array ref) → later.array ref = store.array ref
  records : ∀ ref, values (.record ref) → later.record ref = store.record ref

theorem Retains.heap (retains : store.Retains later values) (heap : store.Heap values) :
    later.Heap values where
  head := heap.head
  tail := heap.tail
  item known member := by
    rw [retains.arrays _ known] at member
    exact heap.item known member
  field known member := by
    rw [retains.records _ known] at member
    exact heap.field known member
  number := heap.number
  marked := heap.marked

def Copies (store later : Store) (values : Value → Prop) (copy value : Value) : Prop :=
  values value ∧ (copy = value ∨
    (∃ pattern : Pattern, pattern.Replaced later.Has [] copy ∧ pattern.Replaced store.Has [] value) ∨
    ∃ (parts : Parts) (copies items : List Value),
      copy.items? = some copies ∧ value.items? = some items ∧
      parts.Replaced later.Has [] copies ∧
      parts.Replaced store.Has [] items)

theorem copies_parts {parts : Parts} {copies items : List Value}
    (written : parts.Replaced later.Has [] copies)
    (shown : parts.Replaced store.Has [] items)
    (known : ∀ item ∈ items, values item) :
    List.Forall₂ (Copies store later values) copies items := by
  match parts with
  | .nil =>
      obtain ⟨_, rfl⟩ := written
      obtain ⟨_, rfl⟩ := shown
      exact .nil
  | .item first rest =>
      obtain ⟨_, _, copy, others, ran, rfl, copyFirst, copyRest⟩ := written
      obtain ⟨rfl, rfl⟩ := List.append_eq_nil_iff.mp ran.symm
      obtain ⟨_, _, value, items, ran, rfl, valueFirst, valueRest⟩ := shown
      obtain ⟨rfl, rfl⟩ := List.append_eq_nil_iff.mp ran.symm
      obtain ⟨knownFirst, knownRest⟩ := List.forall_mem_cons.mp known
      exact .cons ⟨knownFirst, .inr (.inl ⟨first, copyFirst, valueFirst⟩)⟩
        (copies_parts copyRest valueRest knownRest)
  | .splice _ _ =>
      obtain ⟨_, _, _, _, ran, _⟩ := written
      cases ran

theorem copies_lists (heap : store.Heap values) {parts : Parts} {copy value : Value}
    {copies items : List Value} (known : values value) (wholeCopy : copy.items? = some copies)
    (whole : value.items? = some items)
    (written : parts.Replaced later.Has [] copies)
    (shown : parts.Replaced store.Has [] items) :
    later.Alike (Copies store later values) copy value := by
  match parts with
  | .nil =>
      obtain ⟨_, rfl⟩ := written
      obtain ⟨_, rfl⟩ := shown
      obtain rfl := Value.items?_eq_nil wholeCopy
      obtain rfl := Value.items?_eq_nil whole
      exact .nil
  | .item first rest =>
      obtain ⟨_, _, head, others, ran, rfl, copyFirst, copyRest⟩ := written
      obtain ⟨rfl, rfl⟩ := List.append_eq_nil_iff.mp ran.symm
      obtain ⟨_, _, head', items, ran, rfl, valueFirst, valueRest⟩ := shown
      obtain ⟨rfl, rfl⟩ := List.append_eq_nil_iff.mp ran.symm
      obtain ⟨_, tail, rfl, wholeTail⟩ := Value.items?_eq_cons wholeCopy
      obtain ⟨_, tail', rfl, wholeTail'⟩ := Value.items?_eq_cons whole
      refine .pair ⟨heap.head known, .inr (.inl ⟨first, copyFirst, valueFirst⟩)⟩ ⟨heap.tail known, ?_⟩
      exact .inr (.inr ⟨rest, others, items, wholeTail, wholeTail', copyRest, valueRest⟩)
  | .splice _ _ =>
      obtain ⟨_, _, _, _, ran, _⟩ := written
      cases ran

theorem copies_bisimulation (heap : store.Heap values) (retains : store.Retains later values) :
    later.Bisimulation (Copies store later values) := by
  have itself (value : Value) (known : values value) :
      later.Alike (Copies store later values) value value :=
    (retains.heap heap).alike_self known fun _ known => ⟨known, .inl rfl⟩
  rintro copy value
    ⟨known, rfl | ⟨pattern, written, shown⟩ | ⟨_, _, _, wholeCopy, whole, written, shown⟩⟩
  · exact itself _ known
  · match pattern with
    | .whole _ =>
        obtain ⟨_, rfl⟩ := written
        obtain ⟨_, rfl⟩ := shown
        exact itself _ known
    | .hole _ => cases written
    | .sequence .list _ =>
        obtain ⟨_, wholeCopy, written⟩ := written
        obtain ⟨_, whole, shown⟩ := shown
        exact copies_lists heap known wholeCopy whole written shown
    | .sequence .array _ =>
        obtain ⟨_, _, rfl, rfl, written⟩ := written
        obtain ⟨ref, _, rfl, rfl, shown⟩ := shown
        have items := copies_parts written shown fun item member => heap.item known member
        rw [← retains.arrays ref known] at items
        exact .array items
  · exact copies_lists heap known wholeCopy whole written shown

/-- What a template without forms is written out as, is equal to the template. -/
theorem Heap.equal_of_replaced (heap : store.Heap values) (retains : store.Retains later values)
    {pattern : Pattern} {copy value : Value} (known : values value)
    (written : pattern.Replaced later.Has [] copy)
    (shown : pattern.Replaced store.Has [] value) :
    later.equal copy value = true := by
  have bisimulation := copies_bisimulation heap retains
  exact bisimulation.equalAt (by rw [unmet_nil]; exact Nat.lt_succ_self _)
    ⟨known, .inr (.inl ⟨pattern, written, shown⟩)⟩

end Copies

end Store

namespace Machine

section Substitution

variable {host : Host} {hears : Prop} {naming : Naming} {level depth : Nat} {context : Context}
  {before : World} {quoted template : Value} {head : Symbol}

/-- What a form comes to at a place; and a machine that is there runs its code to that. -/
structure ComesTo (host : Host) (perform : Perform) (site : Site) (memory : Memory) (form : Form)
    (value : Value) (after : Memory) : Prop where
  evaluates : Evaluates host perform site memory (.expression form.expression) (.values [value]) after
  runs : ∀ world : World, world.Starts form → world.site = site → world.memory = memory →
    RunsTo host perform world (form.code .start).length (.values [value]) after

theorem comesTo_of_evaluates {perform : Perform} {site : Site} {memory after : Memory} {form : Form}
    {value : Value}
    (evaluates : Evaluates host perform site memory (.expression form.expression) (.values [value])
      after) :
    ComesTo host perform site memory form value after := by
  refine ⟨evaluates, ?_⟩
  rintro world starts rfl rfl
  exact form_runs starts evaluates

theorem closed_comesTo {perform : Perform} {site : Site} {memory : Memory} {pattern : Pattern}
    {compiled : World} (resolves : site.Resolves naming memory)
    (led : Form.TemplateRead (Machine.perform host level) context depth template before pattern compiled)
    (closed : pattern.holes = []) {values : Value → Prop} (heap : before.store.Heap values)
    (known : values template) (retains : before.store.Retains memory.store values) :
    ∃ value after, ComesTo host perform site memory (pattern.form naming) value after ∧
      after.store.equal value template = true := by
  let replies : Replies := fun _ _ => none
  have lawful : Lawful host perform naming site replies := by
    constructor
    case evaluates =>
      intro _ _ _ _ reply
      cases reply
    case resolves =>
      intro _ _ _ _ reply
      cases reply
    case spares =>
      intro _ _ _ _ reply
      cases reply
  cases filled : pattern.fill replies site.config ⟨memory, [], []⟩ with
  | error stuck =>
      obtain ⟨member, _⟩ := fill_stuck filled
      rw [closed] at member
      cases member
  | ok result =>
      obtain ⟨value, last⟩ := result
      obtain ⟨evaluates, _, _, runs, ran, replaced⟩ := fill_filled lawful resolves filled
      have adds := fill_accrues closed filled
      have none : runs = [] := List.map_eq_nil_iff.mp (replaced.runs_eq.trans closed)
      subst none
      have written := replaced.mono fun _ _ holds => Draft.Holds.items holds
      obtain ⟨_, shown⟩ := led.replaced closed
      have later : before.store.Retains last.memory.store values := by
        refine ⟨fun ref member => ?_, fun ref member => ?_, fun ref member => ?_⟩
        · have same := adds.arrays ref (retains.there ref member)
          rw [Array.getElem?_eq_getElem (retains.there ref member)] at same
          exact (Array.getElem?_eq_some_iff.mp same).1
        · rw [← retains.arrays ref member, Store.array, Store.array, Array.getD_eq_getD_getElem?,
            Array.getD_eq_getD_getElem?, adds.arrays ref (retains.there ref member)]
        · rw [← retains.records ref member, Store.record, Store.record, adds.records]
      exact ⟨value, last.memory, comesTo_of_evaluates evaluates,
        heap.equal_of_replaced later known written shown⟩

theorem read_quoted_iff (hosted : host.Acts .all hears) (known : naming.Known before.store)
    (shape : quoted.items? = some [.symbol head, template]) (plain : head.colon = false)
    (named : head.name = "syntax-quote") {form : Form} {compiled : World} :
    Form.read (Machine.perform host level) (depth + 1) .form context quoted before = .ok form compiled ↔
      ∃ pattern, Pattern.form naming pattern = form ∧
        Form.TemplateRead (Machine.perform host level) context depth template before pattern
          compiled := by
  rw [Form.read_syntaxQuote shape plain named]
  exact Form.read_template_iff (behaves_perform hosted level) known

/-- What `(syntax-quote template)` comes to. It is read exactly if what is unquoted in the template is
read, part after part. The forms that this gives are evaluated in their order, each of them once, and
what comes out is the template with their values in their places, if each form comes to a value in its
turn, and those to be spliced in come to lists. They must leave the names as they are seen, and the
arrays that were made for the template. Without any forms, what comes out is equal to the template. -/
theorem syntaxQuote_substitutes (hosted : host.Acts .all hears) (known : naming.Known before.store)
    (shape : quoted.items? = some [.symbol head, template]) (plain : head.colon = false)
    (named : head.name = "syntax-quote") :
    let reading := Machine.perform host level
    (∀ form compiled, Form.read reading (depth + 1) .form context quoted before = .ok form compiled ↔
      ∃ pattern, Pattern.form naming pattern = form ∧
        Form.TemplateRead reading context depth template before pattern compiled) ∧
    ∀ pattern compiled, Form.TemplateRead reading context depth template before pattern compiled →
      ∀ perform (site : Site) memory, site.Resolves naming memory →
        (∀ replies, Lawful host perform naming site replies →
          (∀ value last, pattern.fill replies site.config ⟨memory, [], []⟩ = .ok (value, last) →
            ComesTo host perform site memory (pattern.form naming) value last.memory ∧
              pattern.Replaced last.Holds last.runs value ∧
              last.runs.map Prod.fst = pattern.holes) ∧
          ∀ hole stop, pattern.fill replies site.config ⟨memory, [], []⟩ = .error (hole, stop) →
            hole ∈ pattern.holes ∧ Unfilled replies pattern.spliced hole stop) ∧
        (pattern.holes = [] → ∀ values, before.store.Heap values → values template →
          before.store.Retains memory.store values →
            ∃ value after, ComesTo host perform site memory (pattern.form naming) value after ∧
              after.store.equal value template = true) := by
  refine ⟨fun form compiled => ?_, fun pattern compiled led perform site memory resolves => ?_⟩
  · exact read_quoted_iff hosted known shape plain named
  · refine ⟨fun replies lawful => ⟨fun value last filled => ?_, fun hole stop => fill_stuck⟩, ?_⟩
    · obtain ⟨evaluates, _, _, runs, ran, replaced⟩ := fill_filled lawful resolves filled
      rw [List.nil_append] at ran
      subst ran
      exact ⟨comesTo_of_evaluates evaluates, replaced, replaced.runs_eq⟩
    · exact fun closed values heap member retains =>
        closed_comesTo resolves led closed heap member retains

/-! A template whose forms are a variable and a constant. -/

def shallow (site : Site) : Replies
  | .constant value, draft => some (value, draft.memory)
  | .sequence (.constant value) [], draft => some (value, draft.memory)
  | .variable symbol, draft =>
    match symbol.isPath, draft.memory.store.lookupPlain site.scopes site.function.captures symbol with
    | false, .ok value => some (value, draft.memory)
    | _, _ => none
  | _, _ => none

theorem shallow_memory {site : Site} {form : Form} {draft : Draft} {value : Value} {memory : Memory}
    (reply : shallow site form draft = some (value, memory)) : memory = draft.memory := by
  unfold shallow at reply
  split at reply
  · cases reply
    rfl
  · cases reply
    rfl
  · split at reply
    · cases reply
      rfl
    · cases reply
  · cases reply

theorem lawful_shallow (host : Host) (perform : Perform) (naming : Naming) (site : Site) :
    Lawful host perform naming site (shallow site) where
  evaluates := @fun form draft value memory reply => by
    unfold shallow at reply
    split at reply
    case h_1 =>
      cases reply
      exact .constant
    case h_2 =>
      cases reply
      exact .lastOfBlock .constant
    case h_3 symbol =>
      split at reply
      case h_1 noPath bound =>
        cases reply
        have looked := draft.memory.store.lookup_plain site.scopes site.function.captures noPath
        rw [bound] at looked
        exact .lookup looked
      case h_2 => cases reply
    case h_4 => cases reply
  resolves reply resolves := by
    rw [shallow_memory reply]
    exact resolves
  spares reply _ _ := by rw [shallow_memory reply]

def symbolNamed (name : String) (id : Nat) : Value := .symbol ⟨name, id, false⟩

def couple (first second : Value) : Value := .pair 0 first (.pair 0 second .nil)

def oneTwo : Value := couple (.int 1) (.int 2)

def spliceScope : Store :=
  { leftScope with
    symbols := .ofNames ["list", "array", "concat", "x", "unquote", "unquote-splicing", "quote",
      "syntax-quote"]
    arrays := #[#[couple (symbolNamed "unquote-splicing" 5) (couple (symbolNamed "quote" 6) oneTwo)]] }

def mixedTemplate : Value :=
  .pair 0 (.symbol variableX) (.pair 0 (couple (symbolNamed "unquote" 4) (.symbol variableX))
    (.pair 0 (.array 0) .nil))

def mixedPattern : Pattern :=
  .sequence .list (.item (.whole (.symbol variableX)) (.item (.hole (.variable variableX))
    (.item (.sequence .array (.splice (.sequence (.constant oneTwo) []) .nil)) .nil)))

def plainPattern : Pattern := .sequence .list (.item (.whole (.symbol variableX)) .nil)

def startingWith (store : Store) (form : Form) : World := { starting form with store }

theorem startingWith_starts {store : Store} {depth : Nat} {mode : Reading} {value : Value} {form : Form}
    {before compiled : World} {reading : Perform}
    (ran : Form.read reading depth mode .start value before = .ok form compiled) :
    (startingWith store form).Starts form := by
  have there := startingThere_starts ran
  exact ⟨there.closed, there.program, there.begins, there.hasScope, there.base⟩

theorem known_spliceScope : firstNames.Known spliceScope := by
  unfold Naming.Known
  decide +kernel

theorem mixed_led : Form.TemplateRead (Machine.perform .none 0) .start 3 mixedTemplate
    (startingWith spliceScope .nil) mixedPattern (startingWith spliceScope .nil) := by
  have inner : Form.PartsRead (Machine.perform .none 0) .start 1
      ((startingWith spliceScope .nil).store.array 0).toList (startingWith spliceScope .nil)
      (.splice (.sequence (.constant oneTwo) []) .nil) (startingWith spliceScope .nil) :=
    .splice rfl rfl .nil
  refine .list rfl rfl (.item rfl ?_ (.item rfl (.hole rfl rfl rfl) (.item rfl (.array inner) .nil)))
  exact .whole (fun _ same => nomatch same) fun _ _ _ same => nomatch same

def plainTemplate : Value := .pair 0 (.symbol variableX) .nil

theorem heap_plainTemplate (store : Store) :
    store.Heap fun value => value = plainTemplate ∨ value = .symbol variableX ∨ value = .nil where
  head := by
    rintro _ _ _ (same | same | same) <;> cases same
    exact .inr (.inl rfl)
  tail := by
    rintro _ _ _ (same | same | same) <;> cases same
    exact .inr (.inr rfl)
  item := by rintro _ _ (same | same | same) <;> cases same
  field := by rintro _ _ (same | same | same) <;> cases same
  number := by rintro _ (same | same | same) <;> cases same
  marked := by
    rintro _ _ _ _ _ (same | same | same) (others | others | others) <;> cases same <;> cases others
    exact ⟨rfl, rfl⟩

theorem syntaxQuote_substitutes_mixed :
    let reading := Machine.perform .none 0
    let before := startingWith spliceScope .nil
    let quoted (template : Value) := couple (symbolNamed "syntax-quote" 7) template
    let form := mixedPattern.form firstNames
    (Form.read reading 4 .form .start (quoted mixedTemplate) before = .ok form before ∧
      ∃ value after, RunsTo .none reading (startingWith spliceScope form) (form.code .start).length
          (.values [value]) after ∧
        after.store.text value = "(x 7 [1 2])") ∧
      ∃ form, Form.read reading 4 .form .start (quoted plainTemplate) before = .ok form before ∧
        ∃ value after, RunsTo .none reading (startingWith spliceScope form) (form.code .start).length
            (.values [value]) after ∧
          after.store.equal value plainTemplate = true := by
  intro reading before quoted form
  have hosted : Host.none.Acts .all True := fun _ _ _ => .result _
  have known : firstNames.Known before.store := known_spliceScope
  have resolves (form : Form) : (startingWith spliceScope form).site.Resolves firstNames
      (startingWith spliceScope form).memory := resolves_leftScope rfl rfl rfl rfl
  refine ⟨?_, ?_⟩
  · obtain ⟨reads, comes⟩ := @syntaxQuote_substitutes .none True firstNames 0 3 .start before
      (quoted mixedTemplate) mixedTemplate ⟨"syntax-quote", 7, false⟩ hosted known rfl rfl rfl
    have ran := (reads form _).mpr ⟨mixedPattern, rfl, mixed_led⟩
    let world := startingWith spliceScope form
    obtain ⟨substitutes, _⟩ := comes mixedPattern _ mixed_led reading world.site world.memory
      (resolves form)
    obtain ⟨filled, _⟩ := substitutes (shallow world.site) (lawful_shallow .none reading firstNames _)
    have written : (mixedPattern.fill (shallow world.site) world.site.config
        ⟨world.memory, [], []⟩).toOption.map (fun result => result.2.memory.store.text result.1) =
          some "(x 7 [1 2])" := by decide +kernel
    obtain ⟨⟨value, last⟩, ended, text⟩ := Option.map_eq_some_iff.mp written
    cases fills : mixedPattern.fill (shallow world.site) world.site.config ⟨world.memory, [], []⟩ with
    | error _ =>
        rw [fills] at ended
        cases ended
    | ok result =>
        rw [fills] at ended
        cases ended
        obtain ⟨comesTo, _, _⟩ := filled value last fills
        exact ⟨ran, value, last.memory, comesTo.runs world (startingWith_starts ran) rfl rfl, text⟩
  · obtain ⟨reads, comes⟩ := @syntaxQuote_substitutes .none True firstNames 0 3 .start before
      (quoted plainTemplate) plainTemplate ⟨"syntax-quote", 7, false⟩ hosted known rfl rfl rfl
    have led : Form.TemplateRead reading .start 3 plainTemplate before plainPattern before :=
      .list rfl rfl (.item rfl (.whole (fun _ same => nomatch same) fun _ _ _ same => nomatch same) .nil)
    have ran := (reads _ _).mpr ⟨plainPattern, rfl, led⟩
    let world := startingWith spliceScope (plainPattern.form firstNames)
    obtain ⟨_, copies⟩ := comes plainPattern _ led reading world.site world.memory (resolves _)
    have heap := heap_plainTemplate before.store
    have noArray (ref : ArrayRef) : ¬(Value.array ref = plainTemplate ∨
        Value.array ref = .symbol variableX ∨ Value.array ref = .nil) := by
      rintro (same | same | same) <;> cases same
    obtain ⟨value, after, comesTo, equal⟩ := copies rfl _ heap (.inl rfl)
      ⟨fun ref member => absurd member (noArray ref), fun _ _ => rfl, fun _ _ => rfl⟩
    exact ⟨_, ran, value, after, comesTo.runs world (startingWith_starts ran) rfl rfl, equal⟩

end Substitution

end Machine

namespace Interpreter

open Machine

/-- A form in a template that binds `list` to a number takes the list of the template away. -/
theorem templates_see_definitions :
    let start := fresh ⟨10000, 32, false, false, false⟩
    let comesTo (source : String) : Option (Except Error String) :=
      (attempt do
        let value ← evalText .none 30 source
        readStore fun store => store.text value : Machine (Except Error String)).run' start
    comesTo "(syntax-quote ((unquote 1) b))" = some (.ok "(1 b)") ∧
      comesTo "(def list 1)" = some (.ok "1") ∧
      comesTo "(syntax-quote ((unquote (def list 1)) b))" =
        some (.error (.type (.namedNotFunction "list" .int))) := by
  decide +kernel

end Interpreter

end StackLisp
