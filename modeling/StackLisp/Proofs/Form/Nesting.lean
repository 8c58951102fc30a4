import StackLisp.Proofs.Form.Alike

/-!
Expansions inside of expansions. Reading is given room for so many of them at once, apart from the count
that it keeps itself: what stands inside of one more expansion takes a place, and is refused where there
is none. As many places as the limit has are enough, so expansions never come to be nested deeper.
-/

namespace StackLisp.Form

open Machine

/-- Reads the parts of a value with what places are left: what an expansion gave takes one of them, and
all else, such as the body of a function, takes none. -/
def withPlaces (overflow : Error) (within : Nat → ReadPart) (places : Nat) (context : Context) :
    ReadPart := fun mode inner value =>
  if inner.expansions ≤ context.expansions then within places mode inner value
  else
    match places with
    | 0 => fail overflow
    | places + 1 => within places mode inner value

def readWithin (overflow : Error) (perform : Perform) : (room places : Nat) → ReadPart
  | 0, _, _, _, _ => exhausted
  | room + 1, places, .form, context, value =>
    readForm (withPlaces overflow (readWithin overflow perform room) places context) context perform
      value
  | room + 1, places, .template, context, value =>
    readTemplateOf (withPlaces overflow (readWithin overflow perform room) places context) context value

section Places

variable {overflow : Error} {within : Nat → ReadPart} {again : ReadPart} {places : Nat}
  {context : Context}

theorem withPlaces_same (parts : AlikeInside .same context.expansions (within places) again) :
    AlikeInside .same context.expansions (withPlaces overflow within places context) again := by
  intro mode inner value same
  simp only [withPlaces, if_pos (Nat.le_of_eq same)]
  exact parts mode inner value same

theorem withPlaces_expanded
    (parts : AlikeInside .same (context.expansions + 1) (within places) again) :
    AlikeInside .same (context.expansions + 1) (withPlaces overflow within (places + 1) context)
      again := by
  intro mode inner value same
  have deeper : ¬ inner.expansions ≤ context.expansions := by omega
  simp only [withPlaces, if_neg deeper]
  exact parts mode inner value same

end Places

/-- No expansion is refused for want of a place, if there are as many as the limit leaves. -/
theorem readWithin_eq (overflow : Error) (perform : Perform) (room : Nat) {places : Nat}
    {context : Context} (enough : Context.expansionLimit ≤ context.expansions + places)
    (mode : Reading) (value : Value) :
    readWithin overflow perform room places mode context value =
      read perform room mode context value := by
  induction room generalizing places context mode value with
  | zero => rfl
  | succ room ih =>
      have parts {places expansions : Nat} (enough : Context.expansionLimit ≤ expansions + places) :
          AlikeInside .same expansions (readWithin overflow perform room places)
            (read perform room) := by
        rintro mode inner value rfl
        exact ih enough mode value
      have inside : AlikeInside .same context.expansions
          (withPlaces overflow (readWithin overflow perform room) places context) (read perform room) :=
        withPlaces_same (parts enough)
      cases mode with
      | template => exact alike_readTemplateOf inside value
      | form =>
          refine alike_readForm inside (fun below => ?_) (fun _ _ => rfl) value
          obtain ⟨left, rfl⟩ : ∃ left, places = left + 1 := ⟨places - 1, by omega⟩
          exact withPlaces_expanded (parts (by omega))

end StackLisp.Form
