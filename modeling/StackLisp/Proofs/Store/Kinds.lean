import Mathlib.Data.Fintype.Pigeonhole
import StackLisp.Store

/-!
Kinds of values. The kind of a pointer is found along pointers, so it hangs on what they lead to and on
the names of types, and on nothing else. Pointers that come to an end lead past no pointer twice, and a
store has but so many of them; so the bound that is set to the way plays no part. A value keeps its kind
in all stores in which the records and pointers that there were have kept their types and targets.
-/

namespace StackLisp

def Value.IsPointer (value : Value) : Prop := ∃ ref, value = .pointer ref

namespace Store

variable {store later : Store} {value : Value} {kind : Kind} {fuel : Nat}

theorem kindAt_congr (pointers : later.pointer = store.pointer) (typeNames : later.typeName = store.typeName)
    (fuel : Nat) (value : Value) : later.kindAt fuel value = store.kindAt fuel value := by
  induction fuel generalizing value with
  | zero => cases value <;> simp only [kindAt, typeNames]
  | succ fuel ih => cases value <;> simp only [kindAt, typeNames, pointers, ih]

theorem kindOf_congr (store later : Store) (pointers : later.pointers = store.pointers)
    (typeNames : later.typeName = store.typeName) (value : Value) :
    later.kindOf value = store.kindOf value := by
  have led : later.pointer = store.pointer := funext fun ref => by rw [pointer, pointer, pointers]
  rw [kindOf, kindOf, kind?, kind?, pointers, kindAt_congr led typeNames]

/-! The bound on the way. -/

def along (store : Store) : Nat → Value → Value
  | steps + 1, .pointer ref => store.along steps (store.pointer ref)
  | _, value => value

theorem along_add (more steps : Nat) (value : Value) :
    store.along (more + steps) value = store.along more (store.along steps value) := by
  induction steps generalizing value with
  | zero => rfl
  | succ steps ih =>
      cases value with
      | pointer ref => exact ih _
      | _ => cases more <;> rfl

theorem kindAt_eq_none : store.kindAt fuel value = none ↔ Value.IsPointer (store.along fuel value) := by
  induction fuel generalizing value with
  | zero => cases value <;> simp [kindAt, along, Value.IsPointer]
  | succ fuel ih =>
      cases value with
      | pointer ref => simpa [kindAt, along] using ih
      | _ => simp [kindAt, along, Value.IsPointer]

theorem kindAt_mono (found : store.kindAt fuel value = some kind) {fuel' : Nat} (more : fuel ≤ fuel') :
    store.kindAt fuel' value = some kind := by
  induction fuel generalizing value kind fuel' with
  | zero => cases value <;> cases fuel' <;> first | exact found | cases found
  | succ fuel ih =>
      cases fuel' with
      | zero => omega
      | succ fuel' =>
          cases value with
          | pointer ref =>
              obtain ⟨target, led, rfl⟩ := Option.map_eq_some_iff.mp found
              rw [kindAt, ih led (Nat.le_of_succ_le_succ more)]
              rfl
          | _ => exact found

/-- Pointers that lead to the same one again lead to pointers for ever. -/
theorem isPointer_of_ring {first again : Nat} (before : first < again)
    (ring : store.along first value = store.along again value)
    (met : ∀ steps, steps ≤ again → Value.IsPointer (store.along steps value)) (steps : Nat) :
    Value.IsPointer (store.along steps value) := by
  induction steps using Nat.strongRecOn with
  | ind steps ih =>
      by_cases early : steps ≤ again
      · exact met steps early
      · have back : store.along steps value = store.along (steps - again + first) value := by
          rw [along_add, ring, ← along_add, Nat.sub_add_cancel (by omega)]
        rw [back]
        exact ih _ (by omega)

theorem isPointer_of_far (far : Value.IsPointer (store.along (store.pointers.size + 1) value)) (steps : Nat) :
    Value.IsPointer (store.along steps value) := by
  have met (steps : Nat) (near : steps ≤ store.pointers.size + 1) :
      Value.IsPointer (store.along steps value) := by
    obtain ⟨more, same⟩ := Nat.exists_eq_add_of_le' near
    rw [same, along_add] at far
    cases led : store.along steps value with
    | pointer ref => exact ⟨ref, rfl⟩
    | _ =>
        rw [led] at far
        cases more <;> exact far
  -- All pointers on the way but the last one lead to a pointer, so the store has them.
  have inside (steps : Fin (store.pointers.size + 1)) :
      ∃ ref : Fin store.pointers.size, store.along steps value = .pointer ref := by
    obtain ⟨ref, led⟩ := met steps (by omega)
    by_contra outside
    have beyond : ¬ref < store.pointers.size := fun bound => outside ⟨⟨ref, bound⟩, led⟩
    obtain ⟨next, on⟩ := met (1 + steps) (by omega)
    rw [along_add, led] at on
    simp [along, pointer, Array.getD, beyond] at on
  choose refs led using inside
  obtain ⟨first, again, differ, same⟩ := Fintype.exists_ne_map_eq_of_card_lt refs (by simp)
  have ring : store.along first value = store.along again value := by rw [led, led, same]
  rcases Nat.lt_or_gt_of_ne (Fin.val_ne_of_ne differ) with before | behind
  · exact isPointer_of_ring before ring (fun steps near => met steps (by omega)) steps
  · exact isPointer_of_ring behind ring.symm (fun steps near => met steps (by omega)) steps

theorem kind?_eq_none : store.kind? value = none ↔ ∀ fuel, store.kindAt fuel value = none := by
  refine ⟨fun none fuel => ?_, fun none => none _⟩
  exact kindAt_eq_none.mpr (isPointer_of_far (kindAt_eq_none.mp none) fuel)

theorem kind?_of_kindAt (found : store.kindAt fuel value = some kind) : store.kind? value = some kind := by
  cases is : store.kind? value with
  | none =>
      rw [kind?_eq_none.mp is fuel] at found
      cases found
  | some other =>
      have one := kindAt_mono found (Nat.le_max_left fuel (store.pointers.size + 1))
      have both := kindAt_mono is (Nat.le_max_right fuel (store.pointers.size + 1))
      exact both.symm.trans one

/-! What a value keeps. -/

/-- If the kind of a value hangs on records and pointers, the store has them, and they come to an end. -/
inductive Places (store : Store) : Value → Prop
  | record {ref : RecordRef} : ref < store.records.size → Places store (.record ref)
  | pointer {ref : PointerRef} : ref < store.pointers.size → Places store (store.pointer ref) →
    Places store (.pointer ref)
  | bare {value : Value} : (∀ ref, value ≠ .record ref) → ¬value.IsPointer → Places store value

structure KeepsTypes (store later : Store) : Prop where
  records : store.records.size ≤ later.records.size
  pointers : store.pointers.size ≤ later.pointers.size
  typeNames : ∀ record, record < store.records.size → later.typeName record = store.typeName record
  targets : ∀ pointer, pointer < store.pointers.size → later.pointer pointer = store.pointer pointer

theorem Places.kindAt (placed : store.Places value) : ∃ fuel kind, store.kindAt fuel value = some kind := by
  induction placed with
  | record _ => exact ⟨0, _, rfl⟩
  | pointer _ _ ih =>
      obtain ⟨fuel, kind, led⟩ := ih
      exact ⟨fuel + 1, .pointer kind, by rw [Store.kindAt, led]; rfl⟩
  | @bare value _ leads =>
      cases is : store.kindAt 0 value with
      | none => exact absurd (kindAt_eq_none.mp is) leads
      | some kind => exact ⟨0, kind, is⟩

namespace KeepsTypes

theorem refl (store : Store) : store.KeepsTypes store :=
  ⟨Nat.le_refl _, Nat.le_refl _, fun _ _ => rfl, fun _ _ => rfl⟩

theorem trans {between : Store} (first : store.KeepsTypes between) (second : between.KeepsTypes later) :
    store.KeepsTypes later where
  records := first.records.trans second.records
  pointers := first.pointers.trans second.pointers
  typeNames := fun record inside =>
    (second.typeNames record (inside.trans_le first.records)).trans (first.typeNames record inside)
  targets := fun pointer inside =>
    (second.targets pointer (inside.trans_le first.pointers)).trans (first.targets pointer inside)

theorem of_eq (records : later.records = store.records) (pointers : later.pointers = store.pointers) :
    store.KeepsTypes later where
  records := by rw [records]
  pointers := by rw [pointers]
  typeNames := fun _ _ => by simp only [typeName, Store.record, records]
  targets := fun _ _ => by simp only [Store.pointer, pointers]

theorem places (keeps : store.KeepsTypes later) (placed : store.Places value) : later.Places value := by
  induction placed with
  | record inside => exact .record (inside.trans_le keeps.records)
  | pointer inside _ ih =>
      refine .pointer (inside.trans_le keeps.pointers) ?_
      rwa [keeps.targets _ inside]
  | bare unnamed leads => exact .bare unnamed leads

theorem kindAt (keeps : store.KeepsTypes later) (placed : store.Places value) (fuel : Nat) :
    later.kindAt fuel value = store.kindAt fuel value := by
  induction placed generalizing fuel with
  | record inside => simp only [Store.kindAt, keeps.typeNames _ inside]
  | pointer inside _ ih =>
      cases fuel with
      | zero => rfl
      | succ fuel => rw [Store.kindAt, Store.kindAt, keeps.targets _ inside, ih]
  | @bare value unnamed leads =>
      cases value with
      | record ref => exact absurd rfl (unnamed ref)
      | pointer ref => exact absurd ⟨ref, rfl⟩ leads
      | _ => simp only [Store.kindAt]

theorem kind? (keeps : store.KeepsTypes later) (placed : store.Places value) :
    later.kind? value = store.kind? value := by
  obtain ⟨fuel, kind, led⟩ := placed.kindAt
  rw [kind?_of_kindAt led, kind?_of_kindAt ((keeps.kindAt placed fuel).trans led)]

theorem lastingKind (keeps : store.KeepsTypes later) (placed : store.Places value) :
    later.lastingKind value = store.lastingKind value := by
  have kinds := keeps.kind? placed
  cases placed with
  | record inside => simp only [Store.lastingKind, keeps.typeNames _ inside, kinds]
  | pointer _ _ => exact kinds
  | bare unnamed _ =>
      cases value with
      | record ref => exact absurd rfl (unnamed ref)
      | _ => simp only [Store.lastingKind, kinds]

end KeepsTypes

theorem typeName_modifyRecord (store : Store) (ref : RecordRef)
    (change : OrderedMap Key Value → OrderedMap Key Value) :
    (store.modifyRecord ref change).typeName = store.typeName := by
  funext other
  simp only [Store.typeName, Store.record, Store.modifyRecord, Array.getD_eq_getD_getElem?,
    Array.getElem?_modify]
  split
  · cases store.records[other]? <;> rfl
  · rfl

theorem keepsTypes_modifyRecord (store : Store) (record : RecordRef)
    (change : OrderedMap Key Value → OrderedMap Key Value) :
    store.KeepsTypes (store.modifyRecord record change) where
  records := by simp [modifyRecord]
  pointers := Nat.le_refl _
  typeNames := fun other _ => by rw [typeName_modifyRecord]
  targets := fun _ _ => rfl

theorem keepsTypes_newRecord (store : Store) (record : Record) :
    store.KeepsTypes (store.newRecord record).2 where
  records := by simp [newRecord]
  pointers := Nat.le_refl _
  typeNames := fun other inside => by
    simp only [typeName, Store.record, newRecord, Array.getD_eq_getD_getElem?,
      Array.getElem?_push_lt inside, Array.getElem?_eq_getElem inside]
  targets := fun _ _ => rfl

theorem keepsTypes_newPointer (store : Store) (target : Value) :
    store.KeepsTypes (store.newPointer target).2 where
  records := Nat.le_refl _
  pointers := by simp [newPointer]
  typeNames := fun _ _ => rfl
  targets := fun other inside => by
    simp only [pointer, newPointer, Array.getD_eq_getD_getElem?, Array.getElem?_push_lt inside,
      Array.getElem?_eq_getElem inside]

end Store

end StackLisp
