import StackLisp.Proofs.Form.Templates

/-!
Templates as trees. What reading makes of a template is a tree with forms in the places of what is
unquoted; from the tree comes the form that the template is read as. The contents of an array are those
that it has when reading gets there, since a form that is expanded before may change them.
-/

namespace StackLisp

inductive Collection where
  | list
  | array
  deriving DecidableEq, Repr

def Collection.native : Collection → Standard
  | .list => .list
  | .array => .array

theorem Collection.native_joins (collection : Collection) : collection.native ∈ joining := by
  cases collection <;> decide

mutual

inductive Pattern where
  | whole (value : Value)
  | hole (form : Form)
  | sequence (collection : Collection) (parts : Parts)

inductive Parts where
  | nil
  | item (first : Pattern) (later : Parts)
  | splice (form : Form) (later : Parts)

end

mutual

def Pattern.form (naming : Naming) : Pattern → Form
  | .whole value => .constant value
  | .hole form => form
  | .sequence .list parts => .call (naming.symbol .concat) (parts.forms naming .list)
  | .sequence .array parts =>
    .call (naming.symbol .concat) (.call (naming.symbol .array) [] :: parts.forms naming .array)

def Parts.forms (naming : Naming) (collection : Collection) : Parts → List Form
  | .nil => []
  | .item first later =>
    .call (naming.symbol collection.native) [first.form naming] :: later.forms naming collection
  | .splice form later => form :: later.forms naming collection

end

mutual

def Pattern.holes : Pattern → List Form
  | .whole _ => []
  | .hole form => [form]
  | .sequence _ parts => parts.holes

def Parts.holes : Parts → List Form
  | .nil => []
  | .item first later => first.holes ++ later.holes
  | .splice form later => form :: later.holes

end

mutual

def Pattern.spliced : Pattern → List Form
  | .whole _ => []
  | .hole _ => []
  | .sequence _ parts => parts.spliced

def Parts.spliced : Parts → List Form
  | .nil => []
  | .item first later => first.spliced ++ later.spliced
  | .splice form later => form :: later.spliced

end

mutual

/-- The value is the template, with what its forms came to in their places; `holds` tells which arrays
there are, and with which items. -/
def Pattern.Replaced (holds : ArrayRef → List Value → Prop) :
    Pattern → List (Form × Value) → Value → Prop
  | .whole whole, runs, value => runs = [] ∧ value = whole
  | .hole form, runs, value => runs = [(form, value)]
  | .sequence .list parts, runs, value =>
    ∃ items, value.items? = some items ∧ parts.Replaced holds runs items
  | .sequence .array parts, runs, value =>
    ∃ ref items, value = .array ref ∧ holds ref items ∧ parts.Replaced holds runs items

def Parts.Replaced (holds : ArrayRef → List Value → Prop) :
    Parts → List (Form × Value) → List Value → Prop
  | .nil, runs, items => runs = [] ∧ items = []
  | .item first later, runs, items => ∃ front back value rest, runs = front ++ back ∧
    items = value :: rest ∧ first.Replaced holds front value ∧ later.Replaced holds back rest
  | .splice form later, runs, items => ∃ value spliced back rest, runs = (form, value) :: back ∧
    value.items? = some spliced ∧ items = spliced ++ rest ∧ later.Replaced holds back rest

end

section Replaced

variable {holds others : ArrayRef → List Value → Prop}

mutual

theorem Pattern.Replaced.mono (implied : ∀ ref items, holds ref items → others ref items)
    {pattern : Pattern} {runs : List (Form × Value)} {value : Value}
    (replaced : pattern.Replaced holds runs value) : pattern.Replaced others runs value := by
  match pattern, replaced with
  | .whole _, same => exact same
  | .hole _, same => exact same
  | .sequence .list _, ⟨items, whole, parts⟩ => exact ⟨items, whole, parts.mono implied⟩
  | .sequence .array _, ⟨ref, items, same, held, parts⟩ =>
      exact ⟨ref, items, same, implied ref items held, parts.mono implied⟩

theorem Parts.Replaced.mono (implied : ∀ ref items, holds ref items → others ref items)
    {parts : Parts} {runs : List (Form × Value)} {items : List Value}
    (replaced : parts.Replaced holds runs items) : parts.Replaced others runs items := by
  match parts, replaced with
  | .nil, same => exact same
  | .item _ _, ⟨front, back, value, rest, ran, same, first, later⟩ =>
      exact ⟨front, back, value, rest, ran, same, first.mono implied, later.mono implied⟩
  | .splice _ _, ⟨value, spliced, back, rest, ran, whole, same, later⟩ =>
      exact ⟨value, spliced, back, rest, ran, whole, same, later.mono implied⟩

end

mutual

theorem Pattern.Replaced.runs_eq {pattern : Pattern} {runs : List (Form × Value)} {value : Value}
    (replaced : pattern.Replaced holds runs value) : runs.map Prod.fst = pattern.holes := by
  match pattern, replaced with
  | .whole _, ⟨empty, _⟩ => rw [empty, Pattern.holes, List.map_nil]
  | .hole form, one => rw [one, Pattern.holes, List.map_cons, List.map_nil]
  | .sequence .list _, ⟨_, _, parts⟩ => exact parts.runs_eq
  | .sequence .array _, ⟨_, _, _, _, parts⟩ => exact parts.runs_eq

theorem Parts.Replaced.runs_eq {parts : Parts} {runs : List (Form × Value)} {items : List Value}
    (replaced : parts.Replaced holds runs items) : runs.map Prod.fst = parts.holes := by
  match parts, replaced with
  | .nil, ⟨empty, _⟩ => rw [empty, Parts.holes, List.map_nil]
  | .item _ _, ⟨_, _, _, _, ran, _, first, later⟩ =>
      rw [ran, Parts.holes, List.map_append, first.runs_eq, later.runs_eq]
  | .splice _ _, ⟨_, _, _, _, ran, _, _, later⟩ => rw [ran, Parts.holes, List.map_cons, later.runs_eq]

end

end Replaced

def Store.Has (store : Store) (ref : ArrayRef) (items : List Value) : Prop :=
  (store.array ref).toList = items

namespace Form

open Machine

mutual

inductive TemplateRead (reading : Perform) (context : Context) :
    Nat → Value → World → Pattern → World → Prop
  | whole {depth : Nat} {value : Value} {world : World} : (∀ ref, value ≠ .array ref) →
    (∀ mark head tail, value = .pair mark head tail → value.items? = none) →
    TemplateRead reading context (depth + 1) value world (.whole value) world
  | hole {depth mark : Nat} {head tail inner : Value} {items : List Value} {form : Form}
      {world after : World} :
    (Value.pair mark head tail).items? = some items → unwrapped? "unquote" items = some inner →
    read reading depth .form context inner world = .ok form after →
    TemplateRead reading context (depth + 1) (.pair mark head tail) world (.hole form) after
  | list {depth mark : Nat} {head tail : Value} {items : List Value} {parts : Parts}
      {world after : World} :
    (Value.pair mark head tail).items? = some items → unwrapped? "unquote" items = none →
    PartsRead reading context depth items world parts after →
    TemplateRead reading context (depth + 1) (.pair mark head tail) world (.sequence .list parts)
      after
  | array {depth : Nat} {ref : ArrayRef} {parts : Parts} {world after : World} :
    PartsRead reading context depth (world.store.array ref).toList world parts after →
    TemplateRead reading context (depth + 1) (.array ref) world (.sequence .array parts) after

inductive PartsRead (reading : Perform) (context : Context) :
    Nat → List Value → World → Parts → World → Prop
  | nil {depth : Nat} {world : World} : PartsRead reading context depth [] world .nil world
  | item {depth : Nat} {item : Value} {items : List Value} {first : Pattern} {later : Parts}
      {world between after : World} :
    item.items?.bind (unwrapped? "unquote-splicing") = none →
    TemplateRead reading context depth item world first between →
    PartsRead reading context depth items between later after →
    PartsRead reading context depth (item :: items) world (.item first later) after
  | splice {depth : Nat} {item inner : Value} {items : List Value} {form : Form} {later : Parts}
      {world between after : World} :
    item.items?.bind (unwrapped? "unquote-splicing") = some inner →
    read reading depth .form context inner world = .ok form between →
    PartsRead reading context depth items between later after →
    PartsRead reading context depth (item :: items) world (.splice form later) after

end

section Reading

variable {reading : Perform} {naming : Naming} {context : Context} {depth : Nat} {before after : World}
  (serves : ∀ request, Behaves .all (reading request))

include serves

omit serves in
theorem bind_of_ok {α β : Type} {body : Machine α} {later : α → Machine β} {value : α}
    (ran : body before = .ok value after) : (body >>= later) before = later value after := by
  rw [bind_apply, ran]

theorem known_read {mode : Reading} {value : Value} {form : Form}
    (ran : read reading depth mode context value before = .ok form after)
    (known : naming.Known before.store) : naming.Known after.store := by
  have acts : Acts .all True fun perform => read perform depth mode context value :=
    acts_read depth mode context value
  exact known_acts acts serves ran known

theorem partsRead_of_mapM
    (templates : ∀ value before form after, naming.Known before.store →
      read reading depth .template context value before = .ok form after →
      ∃ pattern, Pattern.form naming pattern = form ∧
        TemplateRead reading context depth value before pattern after)
    {collection : Collection} {items : List Value} {forms : List Form}
    (known : naming.Known before.store)
    (ran : items.mapM (readSegment (read reading depth) context (naming.symbol collection.native))
      before = .ok forms after) :
    ∃ parts, Parts.forms naming collection parts = forms ∧
      PartsRead reading context depth items before parts after := by
  induction items generalizing before forms with
  | nil =>
      cases ran
      exact ⟨.nil, rfl, .nil⟩
  | cons item items ih =>
      rw [List.mapM_cons] at ran
      obtain ⟨form, between, front, rest⟩ := bind_ok ran
      obtain ⟨forms, _, others, ended⟩ := bind_ok rest
      cases ended
      cases splice : item.items?.bind (unwrapped? "unquote-splicing") with
      | some inner =>
          simp only [readSegment, splice] at front
          obtain ⟨later, same, read⟩ := ih (known_read serves front known) others
          exact ⟨.splice form later, by rw [Parts.forms, same], .splice splice front read⟩
      | none =>
          simp only [readSegment, splice] at front
          obtain ⟨inside, _, front, wrapped⟩ := bind_ok front
          cases wrapped
          obtain ⟨later, same, read⟩ := ih (known_read serves front known) others
          obtain ⟨first, sameFirst, readFirst⟩ := templates item before inside between known front
          exact ⟨.item first later, by rw [Parts.forms, same, sameFirst], .item splice readFirst read⟩

theorem known_partsRead {items : List Value} {forms : List Form} {native : Standard}
    (ran : items.mapM (readSegment (read reading depth) context (naming.symbol native)) before =
      .ok forms after)
    (known : naming.Known before.store) : naming.Known after.store := by
  have acts : Acts .all True fun perform =>
      items.mapM (readSegment (read perform depth) context (naming.symbol native)) :=
    acts_readSegments (acts_read depth) context _ items
  exact known_acts acts serves ran known

theorem templateRead_of_read {value : Value} {form : Form} (known : naming.Known before.store)
    (ran : read reading depth .template context value before = .ok form after) :
    ∃ pattern, Pattern.form naming pattern = form ∧
      TemplateRead reading context depth value before pattern after := by
  -- The parts are read one level deeper, in states that all know the names: interning is a lookup there.
  induction depth generalizing value before form after with
  | zero => cases ran
  | succ depth ih =>
      have templates (value : Value) (before : World) (form : Form) (after : World) :=
        @ih before after value form
      simp only [read] at ran
      cases value with
      | pair mark head tail =>
          cases proper : (Value.pair mark head tail).items? with
          | none =>
              simp only [readTemplateOf, proper] at ran
              cases ran
              refine ⟨.whole _, rfl, .whole ?_ ?_⟩
              · rintro _ ⟨⟩
              · rintro _ _ _ ⟨⟩
                exact proper
          | some items =>
              cases unquoted : unwrapped? "unquote" items with
              | some inner =>
                  simp only [readTemplateOf, proper, unquoted] at ran
                  exact ⟨.hole form, rfl, .hole proper unquoted ran⟩
              | none =>
                  simp only [readTemplateOf, proper, unquoted] at ran
                  obtain ⟨_, _, wrapped, rest⟩ := bind_ok ran
                  obtain ⟨rfl, rfl⟩ := of_intern_known .list (by decide) known wrapped
                  obtain ⟨forms, between, inside, rest⟩ := bind_ok rest
                  obtain ⟨parts, rfl, read⟩ :=
                    @partsRead_of_mapM reading naming context depth _ _ serves templates .list _ _ known
                      inside
                  obtain ⟨_, _, joined, ended⟩ := bind_ok rest
                  obtain ⟨rfl, rfl⟩ := of_intern_known .concat (by decide)
                    (known_partsRead serves inside known) joined
                  cases ended
                  exact ⟨.sequence .list parts, rfl, .list proper unquoted read⟩
      | array ref =>
          simp only [readTemplateOf] at ran
          obtain ⟨_, _, looked, rest⟩ := bind_ok ran
          cases looked
          obtain ⟨_, _, wrapped, rest⟩ := bind_ok rest
          obtain ⟨rfl, rfl⟩ := of_intern_known .array (by decide) known wrapped
          obtain ⟨forms, between, inside, rest⟩ := bind_ok rest
          obtain ⟨parts, rfl, read⟩ :=
            @partsRead_of_mapM reading naming context depth _ _ serves templates .array _ _ known inside
          obtain ⟨_, _, joined, ended⟩ := bind_ok rest
          obtain ⟨rfl, rfl⟩ := of_intern_known .concat (by decide)
            (known_partsRead serves inside known) joined
          cases ended
          exact ⟨.sequence .array parts, rfl, .array read⟩
      | _ =>
          cases ran
          refine ⟨.whole _, rfl, .whole ?_ ?_⟩
          · rintro _ ⟨⟩
          · rintro _ _ _ ⟨⟩

mutual

theorem TemplateRead.read_eq {depth : Nat} {value : Value} {pattern : Pattern} {before after : World}
    (led : TemplateRead reading context depth value before pattern after)
    (known : naming.Known before.store) :
    read reading depth .template context value before = .ok (pattern.form naming) after ∧
      naming.Known after.store := by
  match led with
  | .whole noArray dotted =>
      refine ⟨?_, known⟩
      cases value with
      | pair mark head tail =>
          simp only [read, readTemplateOf, dotted _ _ _ rfl]
          rfl
      | array ref => exact absurd rfl (noArray ref)
      | _ => rfl
  | .hole proper unquoted ran =>
      simp only [read, readTemplateOf, proper, unquoted]
      exact ⟨ran, known_read serves ran known⟩
  | .list proper unquoted led =>
      obtain ⟨ran, kept⟩ := led.mapM_eq known .list
      refine ⟨?_, kept⟩
      have wrapped := intern_known .list (by decide) known
      have joined := intern_known .concat (by decide) kept
      simp only [read, readTemplateOf, proper, unquoted]
      exact (bind_of_ok wrapped).trans ((bind_of_ok ran).trans (bind_of_ok joined))
  | @TemplateRead.array _ _ _ ref _ _ _ led =>
      obtain ⟨ran, kept⟩ := led.mapM_eq known .array
      refine ⟨?_, kept⟩
      have wrapped := intern_known .array (by decide) known
      have joined := intern_known .concat (by decide) kept
      have looked := readStore_apply (fun store => (store.array ref).toList) before
      simp only [read, readTemplateOf]
      exact (bind_of_ok looked).trans
        ((bind_of_ok wrapped).trans ((bind_of_ok ran).trans (bind_of_ok joined)))

theorem PartsRead.mapM_eq {depth : Nat} {items : List Value} {parts : Parts} {before after : World}
    (led : PartsRead reading context depth items before parts after)
    (known : naming.Known before.store) (collection : Collection) :
    items.mapM (readSegment (read reading depth) context (naming.symbol collection.native)) before =
        .ok (parts.forms naming collection) after ∧ naming.Known after.store := by
  match led with
  | .nil => exact ⟨rfl, known⟩
  | .item splice first later =>
      obtain ⟨front, between⟩ := first.read_eq known
      obtain ⟨others, kept⟩ := later.mapM_eq between collection
      refine ⟨?_, kept⟩
      simp only [List.mapM_cons, readSegment, splice, bind_apply, front, pure_apply, others]
      rfl
  | .splice splice front later =>
      obtain ⟨others, kept⟩ := later.mapM_eq (known_read serves front known) collection
      refine ⟨?_, kept⟩
      simp only [List.mapM_cons, readSegment, splice, bind_apply, front, others]
      rfl

end

theorem read_template_iff {value : Value} {form : Form} (known : naming.Known before.store) :
    read reading depth .template context value before = .ok form after ↔
      ∃ pattern, Pattern.form naming pattern = form ∧
        TemplateRead reading context depth value before pattern after := by
  constructor
  · exact templateRead_of_read serves known
  · rintro ⟨pattern, rfl, led⟩
    exact (led.read_eq serves known).1

end Reading

section Whole

variable {reading : Perform} {context : Context} {depth : Nat} {before after : World}

theorem read_syntaxQuote {quoted template : Value} {head : Symbol}
    (shape : quoted.items? = some [.symbol head, template]) (plain : head.colon = false)
    (named : head.name = "syntax-quote") :
    read reading (depth + 1) .form context quoted = read reading depth .template context template := by
  have special : Special.ofName? head.name = some .template := by
    rw [named]
    rfl
  cases quoted with
  | pair mark first rest =>
      simp only [read, readForm, shape, bindable?, plain, Bool.false_eq_true, ↓reduceIte,
        readNamedForm, special, readSpecial, readTemplate]
  | nil => cases shape
  | _ => cases shape

mutual

theorem TemplateRead.replaced {depth : Nat} {value : Value} {pattern : Pattern} {before after : World}
    (led : TemplateRead reading context depth value before pattern after)
    (closed : pattern.holes = []) :
    after = before ∧ pattern.Replaced before.store.Has [] value := by
  match led with
  | .whole _ _ => exact ⟨rfl, rfl, rfl⟩
  | .hole _ _ _ => cases closed
  | .list proper _ parts =>
      obtain ⟨same, replaced⟩ := parts.replaced closed
      exact ⟨same, _, proper, replaced⟩
  | .array parts =>
      obtain ⟨same, replaced⟩ := parts.replaced closed
      exact ⟨same, _, _, rfl, rfl, replaced⟩

theorem PartsRead.replaced {depth : Nat} {items : List Value} {parts : Parts} {before after : World}
    (led : PartsRead reading context depth items before parts after) (closed : parts.holes = []) :
    after = before ∧ parts.Replaced before.store.Has [] items := by
  match led with
  | .nil => exact ⟨rfl, rfl, rfl⟩
  | .item _ first later =>
      obtain ⟨front, back⟩ := List.append_eq_nil_iff.mp closed
      obtain ⟨rfl, replacedFirst⟩ := first.replaced front
      obtain ⟨same, replacedLater⟩ := later.replaced back
      exact ⟨same, [], [], _, _, rfl, rfl, replacedFirst, replacedLater⟩
  | .splice _ _ _ => cases closed

end

end Whole

end Form

end StackLisp
