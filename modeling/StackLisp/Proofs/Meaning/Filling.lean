import StackLisp.Proofs.Form.Pattern
import StackLisp.Proofs.Meaning.Templates
import StackLisp.Proofs.Store.Bisimulation

/-!
How templates are filled. The forms in a template come to values, one after the other; lists and arrays
are made of the parts that are there by then. What the code of a template does is this and nothing else,
as long as the forms leave alone what the code depends on: the names of the functions that it calls, and
the arrays that were made for the template, of which no program knows yet.
-/

namespace StackLisp

structure Draft where
  memory : Memory
  made : List ArrayRef
  runs : List (Form × Value)

abbrev Replies := Form → Draft → Option (Value × Memory)

namespace Collection

def make (store : Store) (items : List Value) : Collection → Value × Store
  | .list => store.newList items
  | .array => store.newArray items.toArray

def place (store : Store) : Collection → List ArrayRef
  | .list => []
  | .array => [store.arrays.size]

end Collection

namespace Draft

def make (config : Config) (collection : Collection) (native : Standard)
    (arguments items : List Value) (draft : Draft) : Value × Draft :=
  let made := collection.make draft.memory.store items
  (made.1, { draft with
    memory := draft.memory.behind config native arguments made.1 made.2
    made := collection.place draft.memory.store ++ draft.made })

def ask (replies : Replies) (form : Form) (draft : Draft) : Except (Form × Draft) (Value × Draft) :=
  match replies form draft with
  | none => .error (form, draft)
  | some (value, memory) =>
    .ok (value, { draft with memory, runs := draft.runs ++ [(form, value)] })

def Holds (draft : Draft) (ref : ArrayRef) (items : List Value) : Prop :=
  ref ∈ draft.made ∧ draft.memory.store.arrays[ref]? = some items.toArray

end Draft

structure Contents where
  sequences : List Value
  pieces : List (List Value)

def Contents.behind (sequence : Value) (piece : List Value) (contents : Contents) : Contents :=
  ⟨sequence :: contents.sequences, piece :: contents.pieces⟩

mutual

/-- Fills a template, from left to right. It comes to a stop at a form for which no reply is given, and
at one to be spliced in that comes to no list. -/
def Pattern.fill (replies : Replies) (config : Config) :
    Pattern → Draft → Except (Form × Draft) (Value × Draft)
  | .whole value, draft => .ok (value, draft)
  | .hole form, draft => draft.ask replies form
  | .sequence .list parts, draft => do
    let (contents, draft) ← parts.fill replies config .list draft
    return draft.make config .list .concat contents.sequences contents.pieces.flatten
  | .sequence .array parts, draft => do
    let (empty, draft) := draft.make config .array .array [] []
    let (contents, draft) ← parts.fill replies config .array draft
    return draft.make config .array .concat (empty :: contents.sequences) contents.pieces.flatten

def Parts.fill (replies : Replies) (config : Config) (collection : Collection) :
    Parts → Draft → Except (Form × Draft) (Contents × Draft)
  | .nil, draft => .ok (⟨[], []⟩, draft)
  | .item first later, draft => do
    let (value, draft) ← first.fill replies config draft
    let (sequence, draft) := draft.make config collection collection.native [value] [value]
    let (contents, draft) ← later.fill replies config collection draft
    return (contents.behind sequence [value], draft)
  | .splice form later, draft => do
    let (sequence, asked) ← draft.ask replies form
    match sequence.items? with
    | none => .error (form, draft)
    | some items => do
      let (contents, draft) ← later.fill replies config collection asked
      return (contents.behind sequence items, draft)

end

/-! Lists and what they hold. -/

namespace Value

theorem items?_pair {mark : Nat} {head tail : Value} :
    (Value.pair mark head tail).items? = tail.items?.map (head :: ·) := by
  simp only [items?, spine]
  rcases tail.spine with ⟨items, last⟩
  cases last <;> rfl

theorem items?_eq_nil {value : Value} (empty : value.items? = some []) : value = .nil := by
  cases value with
  | nil => rfl
  | pair mark head tail =>
      rw [items?_pair] at empty
      obtain ⟨_, _, same⟩ := Option.map_eq_some_iff.mp empty
      cases same
  | _ => cases empty

theorem items?_eq_cons {value first : Value} {later : List Value}
    (whole : value.items? = some (first :: later)) :
    ∃ mark tail, value = .pair mark first tail ∧ tail.items? = some later := by
  cases value with
  | pair mark head tail =>
      rw [items?_pair] at whole
      obtain ⟨items, rest, same⟩ := Option.map_eq_some_iff.mp whole
      cases same
      exact ⟨mark, tail, rfl, rest⟩
  | _ => cases whole

theorem isList_of_items? {value : Value} {items : List Value} (whole : value.items? = some items) :
    value.isList = true := by
  cases value with
  | nil | pair => rfl
  | _ => cases whole

end Value

namespace Store

theorem items?_newList (store : Store) (items : List Value) :
    (store.newList items).1.items? = some items := by
  unfold newList newListWithTail
  generalize store.nextMark = mark
  induction items generalizing mark with
  | nil => rfl
  | cons first later ih =>
      dsimp only at ih ⊢
      rw [pairUp, Value.items?_pair, ih]
      rfl

theorem sequenceItems_of_items? {store : Store} {value : Value} {items : List Value}
    (whole : value.items? = some items) : store.sequenceItems value = .ok items := by
  cases value with
  | nil =>
      cases whole
      rfl
  | pair mark head tail =>
      simp only [Value.items?, sequenceItems, listItems] at whole ⊢
      split at whole
      · cases whole
        next same => rw [same]
      · cases whole
  | _ => cases whole

end Store

namespace Machine

theorem allItems_eq {sequences : List Value} {pieces : List (List Value)} {world : World}
    (held : List.Forall₂ (fun sequence piece => world.store.sequenceItems sequence = .ok piece)
      sequences pieces) :
    Native.allItems sequences world = .ok pieces.flatten world := by
  induction held with
  | nil => rfl
  | cons first _ ih =>
      simp only [Native.allItems, bind_apply, ask, readStore_apply, first, ofExcept, pure_apply, ih]
      rfl

theorem concat_list (host : Host) (perform : Perform) {sequences : List Value}
    {pieces : List (List Value)} {world : World}
    (held : List.Forall₂ (fun sequence piece => world.store.sequenceItems sequence = .ok piece)
      sequences pieces)
    (leads : ∀ sequence ∈ sequences.head?, sequence.isList = true) :
    callNative host perform Standard.concat.name (.standard .concat) sequences world =
      .ok (world.store.newList pieces.flatten).1
        { world with store := (world.store.newList pieces.flatten).2 } := by
  have joins : Native.concat Standard.concat.name sequences =
      (do newList (← Native.allItems sequences) : Machine Value) := by
    cases sequences with
    | nil => rfl
    | cons sequence later =>
        have isList := leads sequence rfl
        cases sequence with
        | nil | pair => rfl
        | _ => cases isList
  have called : callNative host perform Standard.concat.name (.standard .concat) sequences world =
      Native.concat Standard.concat.name sequences world := rfl
  rw [called, joins, bind_apply, allItems_eq held]
  rfl

theorem concat_array (host : Host) (perform : Perform) {ref : ArrayRef} {sequences : List Value}
    {pieces : List (List Value)} {world : World}
    (held : List.Forall₂ (fun sequence piece => world.store.sequenceItems sequence = .ok piece)
      (.array ref :: sequences) pieces) :
    callNative host perform Standard.concat.name (.standard .concat) (.array ref :: sequences) world =
      .ok (.array world.store.arrays.size)
        { world with store := (world.store.newArray pieces.flatten.toArray).2 } := by
  have called : callNative host perform Standard.concat.name (.standard .concat)
      (.array ref :: sequences) world =
        (do newArray (← Native.allItems (.array ref :: sequences)) : Machine Value) world := rfl
  rw [called, bind_apply, allItems_eq held]
  rfl

end Machine

/-! What stays as it is while a template is filled. -/

namespace Draft

def Leads (draft later : Draft) : Prop :=
  ∀ ref items, draft.Holds ref items → later.Holds ref items

theorem Leads.refl (draft : Draft) : draft.Leads draft := fun _ _ held => held

theorem Leads.trans {draft between later : Draft} (first : draft.Leads between)
    (second : between.Leads later) : draft.Leads later :=
  fun ref items held => second ref items (first ref items held)

theorem make_store (config : Config) (collection : Collection) (native : Standard)
    (arguments items : List Value) (draft : Draft) :
    (draft.make config collection native arguments items).2.memory.store =
      (collection.make draft.memory.store items).2 := Memory.behind_store _ _ _ _ _ _

theorem make_leads (config : Config) (collection : Collection) (native : Standard)
    (arguments items : List Value) (draft : Draft) :
    draft.Leads (draft.make config collection native arguments items).2 := by
  rintro ref held ⟨made, there⟩
  refine ⟨List.mem_append_right _ made, ?_⟩
  rw [make_store]
  cases collection with
  | list => exact there
  | array =>
      obtain ⟨inside, _⟩ := Array.getElem?_eq_some_iff.mp there
      rw [← there]
      exact Array.getElem?_push_lt inside ▸ (Array.getElem?_eq_getElem inside).symm

theorem make_holds (config : Config) (native : Standard) (arguments items : List Value) (draft : Draft) :
    (draft.make config .array native arguments items).2.Holds draft.memory.store.arrays.size items := by
  refine ⟨List.mem_append_left _ (List.mem_singleton_self _), ?_⟩
  rw [make_store]
  exact Array.getElem?_push_size

theorem make_resolves {site : Site} {naming : Naming} (config : Config) (collection : Collection)
    (native : Standard) (arguments items : List Value) {draft : Draft}
    (resolves : site.Resolves naming draft.memory) :
    site.Resolves naming (draft.make config collection native arguments items).2.memory := by
  unfold Site.Resolves
  rw [make_store]
  cases collection with
  | list => exact resolves.with rfl rfl
  | array => exact resolves.with rfl rfl

theorem Holds.items {draft : Draft} {ref : ArrayRef} {items : List Value}
    (holds : draft.Holds ref items) : draft.memory.store.Has ref items := by
  obtain ⟨_, there⟩ := holds
  simp [Store.Has, Store.array, Array.getD_eq_getD_getElem?, there]

def Stands (draft : Draft) (collection : Collection) (sequence : Value) (piece : List Value) : Prop :=
  match collection with
  | .list => sequence.items? = some piece
  | .array => sequence.items? = some piece ∨ ∃ ref, sequence = .array ref ∧ draft.Holds ref piece

theorem Leads.stands {draft later : Draft} (leads : draft.Leads later) {collection : Collection}
    {sequence : Value} {piece : List Value} (stands : draft.Stands collection sequence piece) :
    later.Stands collection sequence piece := by
  cases collection with
  | list => exact stands
  | array =>
      rcases stands with whole | ⟨ref, same, held⟩
      · exact .inl whole
      · exact .inr ⟨ref, same, leads ref piece held⟩

theorem stands_of_items? (draft : Draft) (collection : Collection) {sequence : Value}
    {piece : List Value} (whole : sequence.items? = some piece) : draft.Stands collection sequence piece := by
  cases collection with
  | list => exact whole
  | array => exact .inl whole

theorem make_stands (config : Config) (collection : Collection) (native : Standard)
    (arguments items : List Value) (draft : Draft) :
    (draft.make config collection native arguments items).2.Stands collection
      (draft.make config collection native arguments items).1 items := by
  cases collection with
  | list => exact draft.memory.store.items?_newList items
  | array => exact .inr ⟨_, rfl, make_holds config native arguments items draft⟩

theorem leads_of_stands {draft : Draft} {sequences : List Value} {pieces : List (List Value)}
    (stands : List.Forall₂ (draft.Stands .list) sequences pieces) :
    ∀ sequence ∈ sequences.head?, sequence.isList = true := by
  intro sequence first
  cases stands with
  | nil => cases first
  | cons whole _ =>
      cases first
      exact Value.isList_of_items? whole

theorem Stands.sequenceItems {draft : Draft} {sequence : Value} {piece : List Value}
    (stands : draft.Stands .array sequence piece) :
    draft.memory.store.sequenceItems sequence = .ok piece := by
  rcases stands with whole | ⟨ref, rfl, held⟩
  · exact Store.sequenceItems_of_items? whole
  · exact congrArg Except.ok held.items

end Draft

namespace Machine

section Filling

variable (host : Host) (perform : Perform) (naming : Naming) (site : Site)

structure Lawful (replies : Replies) : Prop where
  evaluates {form : Form} {draft : Draft} {value : Value} {memory : Memory} :
    replies form draft = some (value, memory) →
    Evaluates host perform site draft.memory (.expression form.expression) (.values [value]) memory
  resolves {form : Form} {draft : Draft} {value : Value} {memory : Memory} :
    replies form draft = some (value, memory) → site.Resolves naming draft.memory →
    site.Resolves naming memory
  spares {form : Form} {draft : Draft} {value : Value} {memory : Memory} :
    replies form draft = some (value, memory) → ∀ ref ∈ draft.made,
    memory.store.arrays[ref]? = draft.memory.store.arrays[ref]?

structure Filled (draft : Draft) (pattern : Pattern) (value : Value) (after : Draft) : Prop where
  evaluates : Evaluates host perform site draft.memory (.expression (pattern.form naming).expression)
    (.values [value]) after.memory
  resolves : site.Resolves naming after.memory
  leads : draft.Leads after
  replaced : ∃ runs, after.runs = draft.runs ++ runs ∧ pattern.Replaced after.Holds runs value

structure FilledParts (collection : Collection) (draft : Draft) (parts : Parts) (contents : Contents)
    (after : Draft) : Prop where
  evaluates : Evaluates host perform site draft.memory
    (.operands (Form.expressions (parts.forms naming collection))) (.values contents.sequences)
      after.memory
  resolves : site.Resolves naming after.memory
  leads : draft.Leads after
  stands : List.Forall₂ (after.Stands collection) contents.sequences contents.pieces
  replaced : ∃ runs, after.runs = draft.runs ++ runs ∧
    parts.Replaced after.Holds runs contents.pieces.flatten

variable {host perform naming site}

theorem evaluates_make {memory : Memory} {draft : Draft} {elements : List Expression}
    {arguments items : List Value} (collection : Collection) {native : Standard}
    (joins : native ∈ joining)
    (operands : Evaluates host perform site memory (.operands elements) (.values arguments) draft.memory)
    (resolves : site.Resolves naming draft.memory)
    (makes : ∀ world : World, world.store = draft.memory.store →
      callNative host perform native.name (.standard native) arguments world =
        .ok (collection.make world.store items).1
          { world with store := (collection.make world.store items).2 }) :
    Evaluates host perform site memory (.expression (.call (naming.symbol native) elements))
      (.values [(draft.make site.config collection native arguments items).1])
      (draft.make site.config collection native arguments items).2.memory := by
  refine evaluates_call joins operands (resolves.finds joins) fun world same => ?_
  rw [makes world same, same]
  rfl

theorem evaluates_wrapped {memory : Memory} {draft : Draft} {expression : Expression} {value : Value}
    (collection : Collection)
    (evaluates : Evaluates host perform site memory (.expression expression) (.values [value])
      draft.memory)
    (resolves : site.Resolves naming draft.memory) :
    Evaluates host perform site memory
      (.expression (.call (naming.symbol collection.native) [expression]))
      (.values [(draft.make site.config collection collection.native [value] [value]).1])
      (draft.make site.config collection collection.native [value] [value]).2.memory := by
  refine evaluates_make collection collection.native_joins (.operand evaluates .noOperand) resolves
    fun world _ => ?_
  cases collection <;> rfl

theorem filled_ask {replies : Replies} (lawful : Lawful host perform naming site replies)
    {draft after : Draft} {form : Form} {value : Value}
    (resolves : site.Resolves naming draft.memory)
    (asked : draft.ask replies form = .ok (value, after)) :
    Filled host perform naming site draft (.hole form) value after := by
  unfold Draft.ask at asked
  cases replied : replies form draft with
  | none =>
      rw [replied] at asked
      cases asked
  | some reply =>
      rw [replied] at asked
      cases asked
      refine ⟨lawful.evaluates replied, lawful.resolves replied resolves, ?_, _, rfl, rfl⟩
      rintro ref items ⟨made, there⟩
      exact ⟨made, (lawful.spares replied ref made).trans there⟩

theorem ok_of_bind {α β ε : Type} {body : Except ε α} {later : α → Except ε β} {value : β}
    (ran : body >>= later = .ok value) : ∃ first, body = .ok first ∧ later first = .ok value := by
  cases body with
  | ok first => exact ⟨first, rfl, ran⟩
  | error stuck => cases ran

section Fill

variable {replies : Replies} (lawful : Lawful host perform naming site replies)

include lawful

mutual

theorem fill_filled {pattern : Pattern} {draft after : Draft} {value : Value}
    (resolves : site.Resolves naming draft.memory)
    (filled : pattern.fill replies site.config draft = .ok (value, after)) :
    Filled host perform naming site draft pattern value after := by
  -- From part to part, two things carry on: the names are seen, and what was made still has its items.
  match pattern with
  | .whole whole =>
      cases filled
      exact ⟨.constant, resolves, .refl draft, [], (List.append_nil _).symm, rfl, rfl⟩
  | .hole form => exact filled_ask lawful resolves filled
  | .sequence .list parts =>
      obtain ⟨⟨contents, between⟩, inside, made⟩ := ok_of_bind filled
      cases made
      have parts := fillParts_filled resolves inside
      obtain ⟨runs, ran, replaced⟩ := parts.replaced
      have leads := between.make_leads site.config .list .concat contents.sequences
        contents.pieces.flatten
      refine ⟨?_, Draft.make_resolves _ _ _ _ _ parts.resolves, parts.leads.trans leads, runs, ran, _,
        Store.items?_newList _ _, replaced.mono leads⟩
      refine evaluates_make .list (by decide) parts.evaluates parts.resolves fun world _ => ?_
      exact concat_list host perform (parts.stands.imp fun _ _ => Store.sequenceItems_of_items?)
        (Draft.leads_of_stands parts.stands)
  | .sequence .array parts =>
      obtain ⟨⟨contents, between⟩, inside, made⟩ := ok_of_bind filled
      cases made
      let seeded := draft.make site.config .array .array [] []
      have seen : site.Resolves naming seeded.2.memory := Draft.make_resolves _ _ _ _ _ resolves
      have parts := fillParts_filled seen inside
      obtain ⟨runs, ran, replaced⟩ := parts.replaced
      have seed := parts.leads.stands (draft.make_stands site.config .array .array [] [])
      have leads := between.make_leads site.config .array .concat (seeded.1 :: contents.sequences)
        contents.pieces.flatten
      have first : Evaluates host perform site draft.memory
          (.expression (.call (naming.symbol .array) [])) (.values [seeded.1]) seeded.2.memory :=
        evaluates_make .array (by decide) .noOperand resolves fun _ _ => rfl
      refine ⟨?_, Draft.make_resolves _ _ _ _ _ parts.resolves,
        (draft.make_leads _ _ _ _ _).trans (parts.leads.trans leads), runs, ran, _, _, rfl,
        between.make_holds _ _ _ _, replaced.mono leads⟩
      refine evaluates_make .array (by decide) (.operand first parts.evaluates) parts.resolves
        fun world same => ?_
      have held : List.Forall₂
          (fun sequence piece => between.memory.store.sequenceItems sequence = .ok piece)
          (seeded.1 :: contents.sequences) ([] :: contents.pieces) :=
        .cons seed.sequenceItems (parts.stands.imp fun _ _ stands => stands.sequenceItems)
      rw [← same] at held
      have joined := concat_array host perform held
      exact joined

theorem fillParts_filled {collection : Collection} {parts : Parts} {draft after : Draft}
    {contents : Contents} (resolves : site.Resolves naming draft.memory)
    (filled : parts.fill replies site.config collection draft = .ok (contents, after)) :
    FilledParts host perform naming site collection draft parts contents after := by
  match parts with
  | .nil =>
      cases filled
      exact ⟨.noOperand, resolves, .refl draft, .nil, [], (List.append_nil _).symm, rfl, rfl⟩
  | .item first later =>
      obtain ⟨⟨value, between⟩, inside, rest⟩ := ok_of_bind filled
      obtain ⟨⟨others, last⟩, behind, made⟩ := ok_of_bind rest
      cases made
      have front := fill_filled resolves inside
      let wrapped := between.make site.config collection collection.native [value] [value]
      have seen : site.Resolves naming wrapped.2.memory := Draft.make_resolves _ _ _ _ _ front.resolves
      have back := fillParts_filled seen behind
      have leads := between.make_leads site.config collection collection.native [value] [value]
      obtain ⟨runsFront, ranFront, replacedFront⟩ := front.replaced
      obtain ⟨runsBack, ranBack, replacedBack⟩ := back.replaced
      refine ⟨?_, back.resolves, front.leads.trans (leads.trans back.leads), ?_, runsFront ++ runsBack,
        ?_, runsFront, runsBack, value, _, rfl, rfl, ?_, replacedBack⟩
      · exact .operand (evaluates_wrapped collection front.evaluates front.resolves) back.evaluates
      · exact .cons (back.leads.stands (between.make_stands _ _ _ _ _)) back.stands
      · rw [ranBack, ← List.append_assoc, ← ranFront]
        rfl
      · exact replacedFront.mono (leads.trans back.leads)
  | .splice form later =>
      obtain ⟨⟨value, between⟩, asked, rest⟩ := ok_of_bind filled
      have front := filled_ask lawful resolves asked
      obtain ⟨runsFront, ranFront, rfl⟩ := front.replaced
      dsimp only at rest
      cases whole : value.items? with
      | none =>
          rw [whole] at rest
          cases rest
      | some items =>
          rw [whole] at rest
          obtain ⟨⟨others, last⟩, behind, made⟩ := ok_of_bind rest
          cases made
          have back := fillParts_filled front.resolves behind
          obtain ⟨runsBack, ranBack, replacedBack⟩ := back.replaced
          refine ⟨.operand front.evaluates back.evaluates, back.resolves, front.leads.trans back.leads,
            .cons (last.stands_of_items? collection whole) back.stands, (form, value) :: runsBack, ?_,
            value, items, runsBack, _, rfl, whole, rfl, replacedBack⟩
          rw [ranBack, ranFront, List.append_assoc]
          rfl

end

end Fill

end Filling

/-! Where filling comes to a stop. -/

theorem cases_of_bind {α β ε : Type} {body : Except ε α} {later : α → Except ε β} {stop : ε}
    (ran : body >>= later = .error stop) :
    body = .error stop ∨ ∃ first, body = .ok first ∧ later first = .error stop := by
  cases body with
  | ok first => exact .inr ⟨first, rfl, ran⟩
  | error other =>
      cases ran
      exact .inl rfl

theorem ask_stuck {replies : Replies} {form hole : Form} {draft stop : Draft}
    (stuck : draft.ask replies form = .error (hole, stop)) :
    hole = form ∧ replies hole stop = none := by
  unfold Draft.ask at stuck
  cases replied : replies form draft with
  | none =>
      rw [replied] at stuck
      cases stuck
      exact ⟨rfl, replied⟩
  | some reply =>
      rw [replied] at stuck
      cases stuck

def Unfilled (replies : Replies) (spliced : List Form) (hole : Form) (draft : Draft) : Prop :=
  replies hole draft = none ∨
    hole ∈ spliced ∧ ∃ value memory, replies hole draft = some (value, memory) ∧ value.items? = none

theorem Unfilled.mono {replies : Replies} {spliced others : List Form} {hole : Form} {draft : Draft}
    (unfilled : Unfilled replies spliced hole draft) (among : ∀ form ∈ spliced, form ∈ others) :
    Unfilled replies others hole draft :=
  unfilled.imp_right fun ⟨member, refused⟩ => ⟨among hole member, refused⟩

section Stuck

variable {replies : Replies} {config : Config} {hole : Form} {stop : Draft}

mutual

theorem fill_stuck {pattern : Pattern} {draft : Draft}
    (stuck : pattern.fill replies config draft = .error (hole, stop)) :
    hole ∈ pattern.holes ∧ Unfilled replies pattern.spliced hole stop := by
  match pattern with
  | .whole _ => cases stuck
  | .hole form =>
      obtain ⟨rfl, unanswered⟩ := ask_stuck stuck
      exact ⟨List.mem_singleton_self _, .inl unanswered⟩
  | .sequence .list parts =>
      rcases cases_of_bind stuck with inside | ⟨_, _, made⟩
      · exact fillParts_stuck inside
      · cases made
  | .sequence .array parts =>
      rcases cases_of_bind stuck with inside | ⟨_, _, made⟩
      · exact fillParts_stuck inside
      · cases made

theorem fillParts_stuck {collection : Collection} {parts : Parts} {draft : Draft}
    (stuck : parts.fill replies config collection draft = .error (hole, stop)) :
    hole ∈ parts.holes ∧ Unfilled replies parts.spliced hole stop := by
  match parts with
  | .nil => cases stuck
  | .item first later =>
      rcases cases_of_bind stuck with inside | ⟨_, _, rest⟩
      · obtain ⟨member, unfilled⟩ := fill_stuck inside
        exact ⟨List.mem_append_left _ member, unfilled.mono fun _ => List.mem_append_left _⟩
      · rcases cases_of_bind rest with behind | ⟨_, _, made⟩
        · obtain ⟨member, unfilled⟩ := fillParts_stuck behind
          exact ⟨List.mem_append_right _ member, unfilled.mono fun _ => List.mem_append_right _⟩
        · cases made
  | .splice form later =>
      rcases cases_of_bind stuck with unasked | ⟨⟨value, asked⟩, replied, rest⟩
      · obtain ⟨rfl, unanswered⟩ := ask_stuck unasked
        exact ⟨List.mem_cons_self, .inl unanswered⟩
      · dsimp only at rest
        cases whole : value.items? with
        | none =>
            rw [whole] at rest
            cases rest
            refine ⟨List.mem_cons_self, .inr ⟨List.mem_cons_self, value, ?_⟩⟩
            unfold Draft.ask at replied
            cases reply : replies hole stop with
            | none =>
                rw [reply] at replied
                cases replied
            | some given =>
                rw [reply] at replied
                cases replied
                exact ⟨_, rfl, whole⟩
        | some items =>
            rw [whole] at rest
            rcases cases_of_bind rest with behind | ⟨_, _, made⟩
            · obtain ⟨member, unfilled⟩ := fillParts_stuck behind
              exact ⟨List.mem_cons_of_mem _ member, unfilled.mono fun _ => List.mem_cons_of_mem _⟩
            · cases made

end

end Stuck

/-! Templates without forms. -/

section Closed

variable {replies : Replies} {config : Config}

structure Accrues (draft after : Draft) : Prop where
  records : after.memory.store.records = draft.memory.store.records
  arrays : ∀ ref < draft.memory.store.arrays.size,
    after.memory.store.arrays[ref]? = draft.memory.store.arrays[ref]?

theorem Accrues.trans {draft between after : Draft} (first : Accrues draft between)
    (second : Accrues between after) : Accrues draft after where
  records := second.records.trans first.records
  arrays := fun ref inside => by
    have same := first.arrays ref inside
    rw [Array.getElem?_eq_getElem inside] at same
    obtain ⟨there, _⟩ := Array.getElem?_eq_some_iff.mp same
    exact (second.arrays ref there).trans (first.arrays ref inside)

theorem make_accrues (config : Config) (collection : Collection) (native : Standard)
    (arguments items : List Value) (draft : Draft) :
    Accrues draft (draft.make config collection native arguments items).2 := by
  constructor
  · rw [Draft.make_store]
    cases collection <;> rfl
  · intro ref inside
    rw [Draft.make_store]
    cases collection with
    | list => rfl
    | array => exact Array.getElem?_push_lt inside ▸ (Array.getElem?_eq_getElem inside).symm

mutual

theorem fill_accrues {pattern : Pattern} {draft after : Draft} {value : Value}
    (closed : pattern.holes = [])
    (filled : pattern.fill replies config draft = .ok (value, after)) : Accrues draft after := by
  match pattern with
  | .whole whole =>
      cases filled
      exact ⟨rfl, fun _ _ => rfl⟩
  | .hole _ => cases closed
  | .sequence .list parts =>
      obtain ⟨_, inside, made⟩ := ok_of_bind filled
      cases made
      exact (fillParts_accrue closed inside).trans (make_accrues _ _ _ _ _ _)
  | .sequence .array parts =>
      obtain ⟨_, inside, made⟩ := ok_of_bind filled
      cases made
      exact (make_accrues _ _ _ _ _ _).trans ((fillParts_accrue closed inside).trans (make_accrues _ _ _ _ _ _))

theorem fillParts_accrue {collection : Collection} {parts : Parts} {draft after : Draft}
    {contents : Contents} (closed : parts.holes = [])
    (filled : parts.fill replies config collection draft = .ok (contents, after)) :
    Accrues draft after := by
  match parts with
  | .nil =>
      cases filled
      exact ⟨rfl, fun _ _ => rfl⟩
  | .item first later =>
      obtain ⟨front, back⟩ := List.append_eq_nil_iff.mp closed
      obtain ⟨_, inside, rest⟩ := ok_of_bind filled
      obtain ⟨_, behind, made⟩ := ok_of_bind rest
      cases made
      exact (fill_accrues front inside).trans ((make_accrues _ _ _ _ _ _).trans (fillParts_accrue back behind))
  | .splice _ _ => cases closed

end

end Closed

end Machine

end StackLisp
