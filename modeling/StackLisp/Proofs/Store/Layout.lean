import Mathlib.Data.List.Basic
import Mathlib.Data.List.Induction
import StackLisp.Proofs.Store.Comparison
import StackLisp.Store.Print

/-!
Layouts of values that contain themselves. A layout enters no container inside of itself, and a store has
but so many of them; so the bound that is set to the depth of layouts plays no part in what they come to.
Wherever a value occurs inside of another one, it is laid out in full, unless it is one of the containers
that enclose it there.
-/

namespace StackLisp

def Value.container? : Value → Option Container
  | .array ref => some (.array ref)
  | .record ref => some (.record ref)
  | .pointer ref => some (.pointer ref)
  | _ => none

def Value.enclose (value : Value) (around : List Container) : List Container :=
  value.container?.toList ++ around

def Container.ellipsis : Container → String
  | .array _ => "[...]"
  | .record _ => "(hash ...)"
  | .pointer _ => "(ptr ...)"

inductive Content where
  | word (text : String)
  | value (inner : Value)

namespace Outline

def parts : Outline → List Outline
  | .pair head tail => [head, tail]
  | .array items => items
  | .form _ items => items
  | _ => []

/-- What stands at a place of an outline; each number of a place leads to one of the parts. -/
def part? (outline : Outline) (place : List Nat) : Option Outline :=
  place.foldlM (fun outer index => outer.parts[index]?) outline

theorem part?_concat (outline : Outline) (place : List Nat) (index : Nat) :
    outline.part? (place ++ [index]) = (outline.part? place).bind fun outer => outer.parts[index]? := by
  rw [part?, List.foldlM_append]
  exact bind_congr fun outer => bind_pure _

end Outline

def Content.outline (inside : Value → Outline) : Content → Outline
  | .word text => .leaf text
  | .value inner => inside inner

namespace Store

variable {store : Store} {around : List Container}

/-! The bound on the depth. -/

def unentered (store : Store) (around : List Container) : Nat :=
  (store.containers.filter (· ∉ around)).length

theorem unentered_nil (store : Store) : store.unentered [] = store.depthBound := by
  have all : store.containers.filter (· ∉ ([] : List Container)) = store.containers :=
    List.filter_eq_self.mpr (by simp)
  rw [unentered, all, containers_length]

theorem filter_cons (store : Store) (container : Container) (around : List Container) :
    store.containers.filter (· ∉ container :: around) =
      (store.containers.filter (· ∉ around)).filter (· ≠ container) := by
  rw [List.filter_filter]
  apply List.filter_congr
  intro other _
  simp [List.mem_cons]

theorem unentered_cons_lt {container : Container} (known : container ∈ store.containers)
    (new : container ∉ around) : store.unentered (container :: around) < store.unentered around := by
  rw [unentered, filter_cons, unentered, List.length_filter_lt_length_iff_exists]
  exact ⟨container, List.mem_filter.mpr ⟨known, by simpa using new⟩, by simp⟩

theorem outlineWith_congr {inside other : List Container → Value → Outline} {value : Value}
    (same : ∀ deeper inner, store.unentered deeper < store.unentered around →
      inside deeper inner = other deeper inner) :
    store.outlineWith inside around value = store.outlineWith other around value := by
  induction value generalizing around with
  | pair mark head tail ihHead ihTail => simp only [outlineWith, ihHead same, ihTail same]
  | array ref =>
      simp only [outlineWith, List.contains_iff_mem]
      split
      · rfl
      next new =>
        congr 1
        exact List.map_congr_left fun item member =>
          same _ _ (unentered_cons_lt (mem_containers_array member) new)
  | record ref =>
      simp only [outlineWith, List.contains_iff_mem]
      split
      · rfl
      next new =>
        congr 2
        exact List.flatMap_congr fun field member => by
          rw [same _ _ (unentered_cons_lt (mem_containers_record member) new)]
  | pointer ref =>
      simp only [outlineWith, List.contains_iff_mem]
      split
      · rfl
      next new =>
        congr 1
        exact List.map_congr_left fun target member =>
          same _ _ (unentered_cons_lt (mem_containers_pointer member) new)
  | _ => rfl

theorem outlineAt_stable {fuel fuel' : Nat} (enough : store.unentered around < fuel)
    (enough' : store.unentered around < fuel') (value : Value) :
    store.outlineAt fuel around value = store.outlineAt fuel' around value := by
  induction fuel generalizing around value fuel' with
  | zero => exact absurd enough (Nat.not_lt_zero _)
  | succ fuel ih =>
      cases fuel' with
      | zero => exact absurd enough' (Nat.not_lt_zero _)
      | succ fuel' =>
          rw [outlineAt, outlineAt]
          exact outlineWith_congr fun deeper inner fewer =>
            ih (Nat.lt_of_lt_of_le fewer (Nat.le_of_lt_succ enough))
              (Nat.lt_of_lt_of_le fewer (Nat.le_of_lt_succ enough')) inner

def layout (store : Store) (around : List Container) (value : Value) : Outline :=
  store.outlineAt (store.unentered around + 1) around value

theorem layout_eq (store : Store) (around : List Container) (value : Value) :
    store.layout around value = store.outlineWith store.layout around value := by
  rw [layout, outlineAt]
  exact outlineWith_congr fun deeper inner fewer => outlineAt_stable fewer (Nat.lt_succ_self _) inner

theorem outline_eq (store : Store) (value : Value) : store.outline value = store.layout [] value := by
  rw [layout, unentered_nil]
  rfl

/-! Layouts from layouts. -/

def contents (store : Store) : Value → List Content
  | .pair _ head tail => [.value head, .value tail]
  | .array ref => (store.array ref).toList.map .value
  | .record ref =>
    let record := store.record ref
    let title := if record.typeName.isEmpty then [] else [.word (quotedText record.typeName)]
    title ++ record.fields.pairs.flatMap fun field => [.word (keyWord field.1), .value field.2]
  | .pointer ref => store.pointers[ref]?.toList.map .value
  | _ => []

def spread (store : Store) (inside : Value → Outline) (value : Value) : Outline :=
  let parts := (store.contents value).map (Content.outline inside)
  match value with
  | .pair _ head tail => .pair (inside head) (inside tail)
  | .array _ => .array parts
  | .record _ => .form "hash" parts
  | .pointer _ => .form "ptr" parts
  | scalar => store.outline scalar

theorem spread_parts (store : Store) (inside : Value → Outline) (value : Value) :
    (store.spread inside value).parts = (store.contents value).map (Content.outline inside) := by
  cases value <;> rfl

theorem spread_ne_elided (store : Store) (inside : Value → Outline) (value : Value) (word : String) :
    store.spread inside value ≠ .elided word := by
  cases value <;> nofun

theorem layout_elided {value : Value} {container : Container} (is : value.container? = some container)
    (enclosed : container ∈ around) : store.layout around value = .elided container.ellipsis := by
  rw [layout_eq]
  cases value <;> cases is <;> simp only [outlineWith, List.contains_iff_mem, enclosed, ↓reduceIte] <;> rfl

theorem layout_spread {value : Value}
    (free : ∀ container, value.container? = some container → container ∉ around) :
    store.layout around value = store.spread (store.layout (value.enclose around)) value := by
  rw [layout_eq]
  cases value with
  | pair mark head tail =>
      simp only [outlineWith, ← layout_eq]
      rfl
  | array ref =>
      simp only [outlineWith, List.contains_iff_mem, free _ rfl, ↓reduceIte, spread, contents, List.map_map]
      rfl
  | record ref =>
      simp only [outlineWith, List.contains_iff_mem, free _ rfl, ↓reduceIte, spread, contents]
      congr 1
      rw [List.map_append, List.map_flatMap]
      congr 1
      split <;> rfl
  | pointer ref =>
      simp only [outlineWith, List.contains_iff_mem, free _ rfl, ↓reduceIte, spread, contents, List.map_map]
      rfl
  | _ => rfl

theorem layout_elided_iff {value : Value} {container : Container}
    (is : value.container? = some container) :
    store.layout around value = .elided container.ellipsis ↔ container ∈ around := by
  refine ⟨fun elided => ?_, layout_elided is⟩
  by_contra free
  rw [layout_spread (by simpa [is] using free)] at elided
  exact spread_ne_elided _ _ _ _ elided

/-! Occurrences. -/

/-- A value occurs at a place inside of another one, with the containers around it, the innermost one
first. -/
inductive Occurs (store : Store) (outer : Value) : List Nat → List Container → Value → Prop
  | here : Occurs store outer [] [] outer
  | inside {place around value index inner} : Occurs store outer place around value →
    (store.contents value)[index]? = some (.value inner) →
    Occurs store outer (place ++ [index]) (value.enclose around) inner

theorem enclose_nodup {value : Value} : (value.enclose around).Nodup ↔
    around.Nodup ∧ ∀ container, value.container? = some container → container ∉ around := by
  rw [Value.enclose]
  cases value.container? with
  | none => simp
  | some container => simp [and_comm]

theorem layout_parts (fresh : around.Nodup) (value : Value) :
    (store.layout around value).parts =
      if (value.enclose around).Nodup then
        (store.contents value).map (Content.outline (store.layout (value.enclose around)))
      else [] := by
  split
  next nodup => rw [layout_spread (enclose_nodup.mp nodup).2, spread_parts]
  next repeated =>
    obtain ⟨container, is, enclosed⟩ : ∃ container, value.container? = some container ∧
        container ∈ around := by simpa [enclose_nodup, fresh] using repeated
    rw [layout_elided is enclosed]
    rfl

/-- An occurrence is laid out for what is around it, unless something around it stands inside of itself
and is elided. -/
theorem Occurs.part?_eq {outer inner : Value} {place : List Nat}
    (occurs : store.Occurs outer place around inner) :
    (store.outline outer).part? place =
      if around.Nodup then some (store.layout around inner) else none := by
  induction occurs with
  | here =>
      rw [outline_eq]
      rfl
  | @inside place around value index inner occurs standing ih =>
      rw [Outline.part?_concat, ih]
      by_cases fresh : around.Nodup
      · rw [if_pos fresh, Option.bind_some, layout_parts fresh]
        split
        · rw [List.getElem?_map, standing]
          rfl
        · rfl
      · have repeated : ¬(value.enclose around).Nodup := fun nodup => fresh (enclose_nodup.mp nodup).1
        rw [if_neg fresh, if_neg repeated]
        rfl

theorem occurs_of_part? {outer : Value} {place : List Nat} {shown : Outline}
    (standing : (store.outline outer).part? place = some shown) :
    (∃ around inner, store.Occurs outer place around inner) ∨ ∃ word, shown = .leaf word := by
  induction place using List.reverseRecOn generalizing shown with
  | nil => exact .inl ⟨[], outer, .here⟩
  | append_singleton place index ih =>
      rw [Outline.part?_concat, Option.bind_eq_some_iff] at standing
      obtain ⟨whole, above, part⟩ := standing
      rcases ih above with ⟨around, value, occurs⟩ | ⟨word, rfl⟩
      · obtain ⟨fresh, rfl⟩ : around.Nodup ∧ store.layout around value = whole := by
          simpa using occurs.part?_eq.symm.trans above
        rw [layout_parts fresh] at part
        split at part
        · rw [List.getElem?_map, Option.map_eq_some_iff] at part
          obtain ⟨content, found, rfl⟩ := part
          cases content with
          | word text => exact .inr ⟨text, rfl⟩
          | value inner => exact .inl ⟨_, inner, occurs.inside found⟩
        · cases part
      · cases part

end Store

end StackLisp
