import Mathlib.Logic.Function.Iterate
import StackLisp.Proofs.Datum.RoundTrip
import StackLisp.Proofs.Store.Layout

/-!
Printing with locks. A printer writes words as it meets them, and holds every container whose insides it is
writing; one that it holds already it does not enter again. It comes to an end, since each container that it
enters is one more that it holds, and between two of them values become smaller; then it has written the
text of the value, and given back all that it had held. Nothing is asked of the store: arrays, records and
pointers may lead back to themselves and to one another on any way, through lists as well.
-/

namespace StackLisp

namespace Outline

def chars (outline : Outline) : List Char := charsBefore false outline []

def closing (outline : Outline) : List Char := charsBefore true outline []

def spaced (outlines : List Outline) : List Char := outlines.flatMap fun outline => ' ' :: outline.chars

theorem chars_pair (head tail : Outline) : (pair head tail).chars = '(' :: (head.chars ++ tail.closing) := by
  rw [chars, charsBefore, charsBefore_append]
  rfl

theorem closing_pair (head tail : Outline) :
    (pair head tail).closing = ' ' :: (head.chars ++ tail.closing) := by
  rw [closing, charsBefore, charsBefore_append]
  rfl

theorem closing_dotted {outline : Outline} (isNil : outline ≠ .nil)
    (isPair : ∀ head tail, outline ≠ .pair head tail) :
    outline.closing = " \\ ".toList ++ (outline.chars ++ [')']) := by
  have before : outline.closing = ' ' :: '\\' :: ' ' :: charsBefore false outline [')'] := by
    cases outline with
    | nil => exact absurd rfl isNil
    | pair head tail => exact absurd rfl (isPair head tail)
    | _ => rfl
  rw [before, charsBefore_append]
  rfl

theorem itemsBefore_spaced (items : List Outline) (rest : List Char) :
    itemsBefore true items rest = spaced items ++ rest := by
  induction items with
  | nil => rfl
  | cons item later ih =>
      rw [itemsBefore, ih, charsBefore_append]
      simp [spaced, chars]

theorem chars_array_cons (first : Outline) (later : List Outline) :
    (array (first :: later)).chars = '[' :: (first.chars ++ (spaced later ++ [']'])) := by
  simp only [chars, charsBefore, inTail, itemsBefore, Bool.false_eq_true, ↓reduceIte]
  rw [itemsBefore_spaced, charsBefore_append]

theorem chars_form (word : String) (items : List Outline) :
    (form word items).chars = '(' :: (word.toList ++ (spaced items ++ [')'])) := by
  simp only [chars, charsBefore, inTail, Bool.false_eq_true, ↓reduceIte, itemsBefore_spaced]

end Outline

inductive Work where
  | write (content : Content)
  | close (rest : Value)
  | release (container : Container)

def Work.say (word : String) : Work := .write (.word word)

structure Printer where
  written : List Char
  held : List Container
  work : List Work

def Printer.start (value : Value) : Printer := ⟨[], [], [.write (.value value)]⟩

def spacedWork (contents : List Content) : List Work :=
  contents.flatMap fun content => [.say " ", .write content]

def rowWork : List Content → List Work
  | [] => []
  | first :: later => .write first :: spacedWork later

namespace Store

def tasks (store : Store) (value : Value) : List Work :=
  match value with
  | .pair _ head tail => [.say "(", .write (.value head), .close tail]
  | .array _ => .say "[" :: rowWork (store.contents value) ++ [.say "]"]
  | .record _ => .say "(hash" :: spacedWork (store.contents value) ++ [.say ")"]
  | .pointer _ => .say "(ptr" :: spacedWork (store.contents value) ++ [.say ")"]
  | scalar => [.say (store.text scalar)]

def print (store : Store) : Printer → Printer
  | ⟨written, held, .write (.word word) :: later⟩ => ⟨written ++ word.toList, held, later⟩
  | ⟨written, held, .write (.value value) :: later⟩ =>
    match value.container? with
    | none => ⟨written, held, store.tasks value ++ later⟩
    | some container =>
      if container ∈ held then ⟨written ++ container.ellipsis.toList, held, later⟩
      else ⟨written, container :: held, store.tasks value ++ .release container :: later⟩
  | ⟨written, held, .close (.pair _ head tail) :: later⟩ =>
    ⟨written, held, .say " " :: .write (.value head) :: .close tail :: later⟩
  | ⟨written, held, .close .nil :: later⟩ => ⟨written, held, .say ")" :: later⟩
  | ⟨written, held, .close dotted :: later⟩ =>
    ⟨written, held, .say " \\ " :: .write (.value dotted) :: .say ")" :: later⟩
  | ⟨written, held, .release container :: later⟩ => ⟨written, held.erase container, later⟩
  | ⟨written, held, []⟩ => ⟨written, held, []⟩

def Brings (store : Store) (printer later : Printer) : Prop :=
  ∃ steps, store.print^[steps] printer = later

/-- Work that writes a text, whatever else there is to do, and gives back what it takes. -/
def Emits (store : Store) (held : List Container) (work : List Work) (text : List Char) : Prop :=
  ∀ written later, store.Brings ⟨written, held, work ++ later⟩ ⟨written ++ text, held, later⟩

structure Prints (store : Store) (held : List Container) (value : Value) : Prop where
  whole : store.Emits held [.write (.value value)] (store.layout held value).chars
  closing : store.Emits held [.close value] (store.layout held value).closing

variable {store : Store} {held : List Container}

section Brings

variable {printer between last : Printer}

theorem Brings.refl (printer : Printer) : store.Brings printer printer := ⟨0, rfl⟩

theorem Brings.trans (first : store.Brings printer between) (second : store.Brings between last) :
    store.Brings printer last := by
  obtain ⟨steps, rfl⟩ := first
  obtain ⟨more, rfl⟩ := second
  exact ⟨more + steps, Function.iterate_add_apply _ _ _ _⟩

theorem Brings.step (brings : store.Brings (store.print printer) last) : store.Brings printer last :=
  Brings.trans ⟨1, rfl⟩ brings

end Brings

section Emits

variable {work more : List Work} {text texts : List Char}

theorem emits_say (word : String) : store.Emits held [.say word] word.toList := fun _ _ => ⟨1, rfl⟩

theorem emits_nothing : store.Emits held [] [] := by
  intro written later
  rw [List.append_nil]
  exact .refl _

theorem Emits.append (first : store.Emits held work text) (second : store.Emits held more texts) :
    store.Emits held (work ++ more) (text ++ texts) := by
  intro written later
  rw [List.append_assoc, ← List.append_assoc written]
  exact (first written (more ++ later)).trans (second (written ++ text) later)

theorem Emits.between (inside : store.Emits held work text) (opening closing : String) :
    store.Emits held (.say opening :: work ++ [.say closing])
      (opening.toList ++ (text ++ closing.toList)) :=
  (emits_say opening).append (inside.append (emits_say closing))

theorem Emits.becomes (emits : store.Emits held more text)
    (step : ∀ written later,
      store.print ⟨written, held, work ++ later⟩ = ⟨written, held, more ++ later⟩) :
    store.Emits held work text := by
  intro written later
  apply Brings.step
  rw [step]
  exact emits written later

end Emits

theorem text_toList (store : Store) (value : Value) :
    (store.text value).toList = (store.outline value).chars := String.toList_ofList

theorem emits_text (value : Value) :
    store.Emits held [.say (store.text value)] (store.outline value).chars := by
  rw [← text_toList]
  exact emits_say _

section Contents

variable {contents : List Content}

theorem emits_content (each : ∀ inner, .value inner ∈ contents → store.Prints held inner)
    {content : Content} (member : content ∈ contents) :
    store.Emits held [.write content] (content.outline (store.layout held)).chars := by
  cases content with
  | word text =>
      have chars : (Outline.leaf text).chars = text.toList := List.append_nil _
      rw [Content.outline, chars]
      exact emits_say text
  | value inner => exact (each inner member).whole

theorem emits_spaced (each : ∀ inner, .value inner ∈ contents → store.Prints held inner) :
    store.Emits held (spacedWork contents)
      (Outline.spaced (contents.map (Content.outline (store.layout held)))) := by
  induction contents with
  | nil => exact emits_nothing
  | cons content later ih =>
      have first := emits_content each List.mem_cons_self
      have others := ih fun inner member => each inner (List.mem_cons_of_mem _ member)
      exact ((emits_say " ").append first).append others

theorem emits_row (each : ∀ inner, .value inner ∈ contents → store.Prints held inner) :
    store.Emits held (.say "[" :: rowWork contents ++ [.say "]"])
      (Outline.array (contents.map (Content.outline (store.layout held)))).chars := by
  cases contents with
  | nil => exact emits_nothing.between "[" "]"
  | cons first later =>
      have shown := emits_content each List.mem_cons_self
      have others := emits_spaced fun inner member => each inner (List.mem_cons_of_mem _ member)
      rw [List.map_cons, Outline.chars_array_cons, ← List.append_assoc]
      exact (shown.append others).between "[" "]"

theorem emits_tasks {value : Value}
    (each : ∀ inner, .value inner ∈ store.contents value → store.Prints held inner) :
    store.Emits held (store.tasks value) (store.spread (store.layout held) value).chars := by
  cases value with
  | pair mark head tail =>
      have first := (each head (by simp [Store.contents])).whole
      have others := (each tail (by simp [Store.contents])).closing
      rw [spread, Outline.chars_pair]
      exact (emits_say "(").append (first.append others)
  | array ref => exact emits_row each
  | record ref =>
      rw [spread, Outline.chars_form]
      exact (emits_spaced each).between "(hash" ")"
  | pointer ref =>
      rw [spread, Outline.chars_form]
      exact (emits_spaced each).between "(ptr" ")"
  | _ => exact emits_text _

end Contents

/-! Printing comes to an end. -/

/-- On the way down one container more is held, or the value is smaller. -/
theorem descends {value inner : Value} (member : .value inner ∈ store.contents value)
    (free : ∀ container, value.container? = some container → container ∉ held) :
    Prod.Lex (· < ·) (· < ·) (store.unentered (value.enclose held), sizeOf inner)
      (store.unentered held, sizeOf value) := by
  cases value with
  | pair mark head tail =>
      refine .right _ ?_
      simp only [contents, List.mem_cons, Content.value.injEq, List.not_mem_nil, or_false] at member
      simp only [Value.pair.sizeOf_spec]
      rcases member with rfl | rfl
      · omega
      · omega
  | array ref =>
      obtain ⟨item, inside, _⟩ := List.mem_map.mp member
      exact .left _ _ (unentered_cons_lt (mem_containers_array inside) (free _ rfl))
  | record ref =>
      refine .left _ _ (unentered_cons_lt ?_ (free _ rfl))
      rcases List.mem_append.mp member with title | field
      · split at title <;> simp at title
      · obtain ⟨field, inside, _⟩ := List.mem_flatMap.mp field
        exact mem_containers_record inside
  | pointer ref =>
      obtain ⟨target, led, _⟩ := List.mem_map.mp member
      exact .left _ _ (unentered_cons_lt (mem_containers_pointer led) (free _ rfl))
  | _ => cases member

theorem closing_layout {value : Value} (isNil : value ≠ .nil)
    (isPair : ∀ mark head tail, value ≠ .pair mark head tail) :
    (store.layout held value).closing = " \\ ".toList ++ ((store.layout held value).chars ++ [')']) := by
  by_cases free : ∀ container, value.container? = some container → container ∉ held
  · rw [layout_spread free]
    apply Outline.closing_dotted
    · cases value with
      | nil => exact absurd rfl isNil
      | _ => nofun
    · cases value with
      | pair mark head tail => exact absurd rfl (isPair mark head tail)
      | _ => nofun
  · obtain ⟨container, is, enclosed⟩ : ∃ container, value.container? = some container ∧
        container ∈ held := by simpa using free
    rw [layout_elided is enclosed]
    exact Outline.closing_dotted nofun nofun

theorem emits_dotted {value : Value} (isNil : value ≠ .nil)
    (isPair : ∀ mark head tail, value ≠ .pair mark head tail)
    (whole : store.Emits held [.write (.value value)] (store.layout held value).chars) :
    store.Emits held [.close value] (store.layout held value).closing := by
  rw [closing_layout isNil isPair]
  refine ((emits_say " \\ ").append (whole.append (emits_say ")"))).becomes fun written later => ?_
  cases value with
  | nil => exact absurd rfl isNil
  | pair mark head tail => exact absurd rfl (isPair mark head tail)
  | _ => rfl

theorem emits_value {value : Value}
    (opened : (∀ container, value.container? = some container → container ∉ held) →
      store.Emits (value.enclose held) (store.tasks value)
        (store.spread (store.layout (value.enclose held)) value).chars) :
    store.Emits held [.write (.value value)] (store.layout held value).chars := by
  intro written later
  cases is : value.container? with
  | none =>
      have free : ∀ container, value.container? = some container → container ∉ held := by simp [is]
      have enclosed : value.enclose held = held := by simp [Value.enclose, is]
      rw [layout_spread free]
      refine Brings.step ?_
      simpa [print, is, enclosed] using opened free written later
  | some container =>
      by_cases isHeld : container ∈ held
      · rw [layout_elided is isHeld]
        exact ⟨1, by simp [print, is, isHeld, Outline.chars, Outline.charsBefore, Outline.inTail]⟩
      · have free : ∀ other, value.container? = some other → other ∉ held := by simpa [is] using isHeld
        have enclosed : value.enclose held = container :: held := by simp [Value.enclose, is]
        have taken : store.print ⟨written, held, .write (.value value) :: later⟩ =
            ⟨written, container :: held, store.tasks value ++ .release container :: later⟩ := by
          simp [print, is, isHeld]
        have inside := opened free written (.release container :: later)
        rw [enclosed] at inside
        rw [layout_spread free, enclosed, List.singleton_append]
        apply Brings.step
        rw [taken]
        exact inside.trans ⟨1, by simp [print]⟩

theorem prints (store : Store) (held : List Container) (value : Value) : store.Prints held value := by
  have each (free : ∀ container, value.container? = some container → container ∉ held)
      {inner : Value} (member : .value inner ∈ store.contents value) :
      store.Prints (value.enclose held) inner := prints store (value.enclose held) inner
  have whole := emits_value fun free => emits_tasks fun _ member => each free member
  refine ⟨whole, ?_⟩
  cases value with
  | pair mark head tail =>
      have free : ∀ container, (Value.pair mark head tail).container? = some container →
          container ∉ held := by simp [Value.container?]
      have first := (each free List.mem_cons_self).whole
      have others := (each free (List.mem_cons_of_mem _ List.mem_cons_self)).closing
      rw [layout_spread free, spread, Outline.closing_pair]
      exact ((emits_say " ").append (first.append others)).becomes fun _ _ => rfl
  | nil => exact (emits_say ")").becomes fun _ _ => rfl
  | _ => exact emits_dotted (by simp) (by simp) whole
termination_by (store.unentered held, sizeOf value)
decreasing_by exact descends member free

/-- For every store, with whatever cycles in it, and every value: printing comes to an end with the text of
the value, and nothing is held then. An occurrence is written unless something around it is elided; it is
elided exactly if it is one of the containers around it, and otherwise it is written in full, wherever else
it occurs. What is written besides the occurrences are words. -/
theorem text_elides (store : Store) (value : Value) :
    (∃ steps, store.print^[steps] (.start value) = ⟨(store.text value).toList, [], []⟩) ∧
    (∀ place around inner, store.Occurs value place around inner →
      let shown := (store.outline value).part? place
      (shown.isSome ↔ around.Nodup) ∧
      (∀ container, inner.container? = some container →
        (shown = some (.elided container.ellipsis) ↔ around.Nodup ∧ container ∈ around)) ∧
      (around.Nodup → (∀ container, inner.container? = some container → container ∉ around) →
        shown = some (store.spread (store.layout (inner.enclose around)) inner))) ∧
    ∀ place shown, (store.outline value).part? place = some shown →
      (∃ around inner, store.Occurs value place around inner) ∨ ∃ word, shown = .leaf word := by
  refine ⟨?_, fun place around inner occurs => ?_, fun place shown => occurs_of_part?⟩
  · rw [text_toList, outline_eq]
    exact (store.prints [] value).whole [] []
  · intro shown
    have standing : shown = if around.Nodup then some (store.layout around inner) else none :=
      occurs.part?_eq
    rw [standing]
    by_cases fresh : around.Nodup
    · refine ⟨by simp [fresh], fun container is => ?_, fun _ free => ?_⟩
      · rw [if_pos fresh, Option.some_inj, layout_elided_iff is]
        exact (and_iff_right fresh).symm
      · rw [if_pos fresh, layout_spread free]
    · simp [fresh]

/-- A pointer to itself; and two pointers, one of which leads to the other in a list that holds a third
one twice. -/
theorem text_elides_ring :
    let loop : Value := .pair 0 (.pointer 1) (.pair 1 (.pointer 3) (.pair 2 (.pointer 3) .nil))
    let store := { empty with pointers := #[.pointer 0, .pointer 2, loop, .int 7] }
    store.text (.pointer 0) = "(ptr (ptr ...))" ∧
      (store.outline (.pointer 1)).part? [0, 0, 0] = some (.elided "(ptr ...)") ∧
      store.text (.pointer 1) = "(ptr (ptr ((ptr ...) (ptr 7) (ptr 7))))" ∧
      ∃ steps, store.print^[steps] (.start (.pointer 1)) =
        ⟨"(ptr (ptr ((ptr ...) (ptr 7) (ptr 7))))".toList, [], []⟩ := by
  intro loop store
  have other : store.Occurs (.pointer 1) [0] [.pointer 1] (.pointer 2) := .inside .here rfl
  have outer : store.Occurs (.pointer 1) [0, 0] [.pointer 2, .pointer 1] loop := .inside other rfl
  have inner : store.Occurs (.pointer 1) [0, 0, 0] [.pointer 2, .pointer 1] (.pointer 1) :=
    .inside outer rfl
  obtain ⟨ends, elides, -⟩ := text_elides store (.pointer 1)
  have elided := (elides _ _ _ inner).2.1 (.pointer 1) rfl
  have text : store.text (.pointer 1) = "(ptr (ptr ((ptr ...) (ptr 7) (ptr 7))))" := by decide +kernel
  rw [text] at ends
  exact ⟨by decide +kernel, elided.mpr ⟨by decide, by decide⟩, text, ends⟩

end Store

end StackLisp
