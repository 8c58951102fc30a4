import StackLisp.Proofs.Store.Names
import StackLisp.Proofs.Symbol.Identity

/-!
What array literals and templates are read as: calls, by their names, of the functions that make lists
and arrays and join them. The parts of a template that are unquoted are read as forms of their own.
-/

namespace StackLisp

namespace Form

mutual

/-- The form that a template is read as, with its unquoted parts and what these are read as, in
order. -/
inductive Template (naming : Naming) : Value → Form → List (Value × Form) → Prop
  | constant {value : Value} : (∀ ref, value ≠ .array ref) →
    (∀ mark head tail, value = .pair mark head tail → value.items? = none) →
    Template naming value (.constant value) []
  | unquoted {value inner : Value} {items : List Value} {form : Form} :
    value.items? = some items → unwrapped? "unquote" items = some inner →
    Template naming value form [(inner, form)]
  | list {value : Value} {items : List Value} {segments : List Form}
      {holes : List (Value × Form)} :
    value.items? = some items → unwrapped? "unquote" items = none →
    Segments naming .list items segments holes →
    Template naming value (.call (naming.symbol .concat) segments) holes
  | array {ref : ArrayRef} {items : List Value} {segments : List Form}
      {holes : List (Value × Form)} :
    Segments naming .array items segments holes →
    Template naming (.array ref)
      (.call (naming.symbol .concat) (.call (naming.symbol .array) [] :: segments)) holes

inductive Segments (naming : Naming) :
    Standard → List Value → List Form → List (Value × Form) → Prop
  | nil {wrap : Standard} : Segments naming wrap [] [] []
  | item {wrap : Standard} {item : Value} {items : List Value} {form : Form} {segments : List Form}
      {holes later : List (Value × Form)} :
    item.items?.bind (unwrapped? "unquote-splicing") = none → Template naming item form holes →
    Segments naming wrap items segments later →
    Segments naming wrap (item :: items) (.call (naming.symbol wrap) [form] :: segments)
      (holes ++ later)
  | spliced {wrap : Standard} {item inner : Value} {items : List Value} {form : Form}
      {segments : List Form} {later : List (Value × Form)} :
    item.items?.bind (unwrapped? "unquote-splicing") = some inner →
    Segments naming wrap items segments later →
    Segments naming wrap (item :: items) (form :: segments) ((inner, form) :: later)

end

open Machine

def WasRead (reading : Perform) (context : Context) (read : Value × Form) : Prop :=
  ∃ depth before after, Form.read reading depth .form context read.1 before = .ok read.2 after

section Reading

variable {reading : Perform} {naming : Naming} {context : Context} {before compiled : World}

theorem known_acts {α : Type} {body : Perform → Machine α} (acts : Acts .all True body)
    (serves : ∀ request, Behaves .all (reading request)) {value : α}
    (ran : body reading before = .ok value compiled) (known : naming.Known before.store) :
    naming.Known compiled.store := by
  have becomes := acts.behaves serves before
  rw [lastState, ran] at becomes
  exact fun native joins => becomes.develops.grown.extends _ _ (known native joins)

theorem intern_known (native : Standard) (joins : native ∈ joining)
    (known : naming.Known before.store) :
    intern native.name before = .ok (naming.symbol native) before := by
  have same := SymbolTable.symbol_of_known (known native joins)
  simp only [intern, onStore, Store.intern, same]
  rfl

theorem of_intern_known (native : Standard) (joins : native ∈ joining) {symbol : Symbol}
    (known : naming.Known before.store) (ran : intern native.name before = .ok symbol compiled) :
    symbol = naming.symbol native ∧ compiled = before := by
  rw [intern_known native joins known] at ran
  cases ran
  exact ⟨rfl, rfl⟩

theorem bind_ok {α β : Type} {body : Machine α} {later : α → Machine β} {value : β}
    (ran : (body >>= later) before = .ok value compiled) :
    ∃ first between, body before = .ok first between ∧ later first between = .ok value compiled := by
  rw [bind_apply] at ran
  cases split : body before with
  | ok first between =>
      rw [split] at ran
      exact ⟨first, between, rfl, ran⟩
  | error stop between =>
      rw [split] at ran
      cases ran

def ReadsTemplates (reading : Perform) (naming : Naming) (context : Context) (depth : Nat) : Prop :=
  ∀ value before form compiled, naming.Known before.store →
    read reading depth .template context value before = .ok form compiled →
    ∃ holes, Template naming value form holes ∧ ∀ hole ∈ holes, WasRead reading context hole

section Parts

variable (serves : ∀ request, Behaves .all (reading request)) {depth : Nat}
  (reads : ReadsTemplates reading naming context depth)

include serves reads

theorem reads_segments {native : Standard} {items : List Value}
    {segments : List Form} (known : naming.Known before.store)
    (ran : items.mapM (readSegment (read reading depth) context (naming.symbol native)) before =
      .ok segments compiled) :
    naming.Known compiled.store ∧ ∃ holes, Segments naming native items segments holes ∧
      ∀ hole ∈ holes, WasRead reading context hole := by
  induction items generalizing before segments with
  | nil =>
      cases ran
      exact ⟨known, [], .nil, fun _ member => (List.not_mem_nil member).elim⟩
  | cons item items ih =>
      rw [List.mapM_cons] at ran
      obtain ⟨segment, between, front, rest⟩ := bind_ok ran
      obtain ⟨segments, last, others, ended⟩ := bind_ok rest
      cases ended
      have kept : naming.Known between.store := by
        have acts : Acts .all True fun perform =>
            readSegment (read perform depth) context (naming.symbol native) item :=
          acts_readSegment (acts_read depth) context _ item
        exact known_acts acts serves front known
      obtain ⟨lasts, holes, follow, read⟩ := ih kept others
      refine ⟨lasts, ?_⟩
      cases splice : item.items?.bind (unwrapped? "unquote-splicing") with
      | some inner =>
          simp only [readSegment, splice] at front
          refine ⟨(inner, segment) :: holes, .spliced splice follow, ?_⟩
          rintro hole (_ | ⟨_, member⟩)
          · exact ⟨depth, before, between, front⟩
          · exact read hole member
      | none =>
          simp only [readSegment, splice] at front
          obtain ⟨form, _, inside, wrapped⟩ := bind_ok front
          cases wrapped
          obtain ⟨inner, template, innerRead⟩ := reads item before form _ known inside
          refine ⟨inner ++ holes, .item splice template follow, fun hole member => ?_⟩
          rcases List.mem_append.mp member with here | there
          · exact innerRead hole here
          · exact read hole there

theorem reads_joined (native : Standard) (join : Symbol → List Form → List Form)
    {items : List Value} {form : Form} (joins : native ∈ joining) (known : naming.Known before.store)
    (ran : (do
      let wrap ← intern native.name
      let segments ← items.mapM (readSegment (read reading depth) context wrap)
      return .call (← intern "concat") (join wrap segments) : Machine Form) before =
        .ok form compiled) :
    ∃ segments holes, form = .call (naming.symbol .concat) (join (naming.symbol native) segments) ∧
      Segments naming native items segments holes ∧
      ∀ hole ∈ holes, WasRead reading context hole := by
  obtain ⟨_, _, wrapped, rest⟩ := bind_ok ran
  obtain ⟨rfl, rfl⟩ := of_intern_known native joins known wrapped
  obtain ⟨segments, between, inside, rest⟩ := bind_ok rest
  obtain ⟨kept, holes, follow, read⟩ := reads_segments serves reads known inside
  obtain ⟨_, _, joined, ended⟩ := bind_ok rest
  obtain ⟨rfl, rfl⟩ := of_intern_known .concat (by decide) kept joined
  cases ended
  exact ⟨segments, holes, rfl, follow, read⟩

theorem reads_templateOf {value : Value} {form : Form} (known : naming.Known before.store)
    (ran : readTemplateOf (read reading depth) context value before = .ok form compiled) :
    ∃ holes, Template naming value form holes ∧ ∀ hole ∈ holes, WasRead reading context hole := by
  cases value with
  | pair mark head tail =>
      cases proper : (Value.pair mark head tail).items? with
      | none =>
          simp only [readTemplateOf, proper] at ran
          cases ran
          refine ⟨[], .constant (fun _ same => nomatch same) ?_, fun _ member => nomatch member⟩
          rintro _ _ _ ⟨⟩
          exact proper
      | some items =>
          cases unquoted : unwrapped? "unquote" items with
          | some inner =>
              simp only [readTemplateOf, proper, unquoted] at ran
              refine ⟨[(inner, form)], .unquoted proper unquoted, fun hole member => ?_⟩
              obtain rfl := List.mem_singleton.mp member
              exact ⟨depth, before, compiled, ran⟩
          | none =>
              simp only [readTemplateOf, proper, unquoted] at ran
              obtain ⟨segments, holes, rfl, follow, read⟩ :=
                reads_joined serves reads .list (fun _ segments => segments) (by decide) known ran
              exact ⟨holes, .list proper unquoted follow, read⟩
  | array ref =>
      simp only [readTemplateOf] at ran
      obtain ⟨_, _, looked, rest⟩ := bind_ok ran
      cases looked
      obtain ⟨segments, holes, rfl, follow, read⟩ :=
        reads_joined serves reads .array (fun wrap segments => .call wrap [] :: segments)
          (by decide) known rest
      exact ⟨holes, .array follow, read⟩
  | _ =>
      cases ran
      refine ⟨[], .constant (fun _ same => nomatch same) (fun _ _ _ same => nomatch same), ?_⟩
      exact fun _ member => nomatch member

end Parts

theorem readsTemplates (serves : ∀ request, Behaves .all (reading request)) (depth : Nat) :
    ReadsTemplates reading naming context depth := by
  induction depth with
  | zero =>
      intro value before form compiled _ ran
      cases ran
  | succ depth ih =>
      intro value before form compiled known ran
      exact reads_templateOf serves ih known ran

theorem wasRead_variable {symbol : Symbol} {form : Form} (plain : symbol.colon = false)
    (noSigil : symbol.isSigil = false) (read : WasRead reading context (.symbol symbol, form)) :
    form = .variable symbol := by
  obtain ⟨depth, before, after, ran⟩ := read
  cases depth with
  | zero => cases ran
  | succ depth =>
      simp only [Form.read, readForm, plain, noSigil, Bool.or_self, Bool.false_eq_true,
        ↓reduceIte] at ran
      cases ran
      rfl

theorem wasRead_readAll {depth : Nat} {values : List Value} {forms : List Form}
    (ran : readAll (read reading depth) context values before = .ok forms compiled) :
    List.Forall₂ (fun value form => WasRead reading context (value, form)) values forms := by
  unfold readAll at ran
  induction values generalizing before forms with
  | nil =>
      cases ran
      exact .nil
  | cons value values ih =>
      rw [List.mapM_cons] at ran
      obtain ⟨form, between, front, rest⟩ := bind_ok ran
      obtain ⟨forms, last, others, ended⟩ := bind_ok rest
      cases ended
      exact .cons ⟨depth, before, between, front⟩ (ih others)

theorem reads_array (serves : ∀ request, Behaves .all (reading request)) {depth : Nat}
    {ref : ArrayRef} {form : Form} (known : naming.Known before.store)
    (ran : read reading depth .form context (.array ref) before = .ok form compiled) :
    ∃ forms, form = .call (naming.symbol .array) forms ∧
      List.Forall₂ (fun item form => WasRead reading context (item, form))
        (before.store.array ref).toList forms := by
  cases depth with
  | zero => cases ran
  | succ depth =>
      simp only [read, readForm] at ran
      obtain ⟨_, _, looked, rest⟩ := bind_ok ran
      cases looked
      obtain ⟨forms, between, items, rest⟩ := bind_ok rest
      obtain ⟨_, _, named, ended⟩ := bind_ok rest
      have acts : Acts .all True fun perform =>
          readAll (read perform depth) context (before.store.array ref).toList :=
        acts_readAll (acts_read depth) context _
      obtain ⟨rfl, rfl⟩ := of_intern_known .array (by decide) (known_acts acts serves items known) named
      cases ended
      exact ⟨forms, rfl, wasRead_readAll items⟩

end Reading

end Form

end StackLisp
