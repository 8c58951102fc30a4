import StackLisp.Proofs.Code.Height

/-!
The heights of generated code. The code of a form in which every way out of a loop stands inside of
a loop leads from the height of its place to one value more.
-/

namespace StackLisp

namespace Form

mutual

/-- Whether every way out of a loop stands inside of one. -/
def enclosed (inLoop : Bool) : Form → Bool
  | .constant _ | .variable _ | .function _ => true
  | .call _ arguments => allEnclosed inLoop arguments
  | .dispatch callee arguments => callee.enclosed inLoop && allEnclosed inLoop arguments
  | .sequence first later => first.enclosed inLoop && allEnclosed inLoop later
  | .define _ value | .assign _ value => value.enclosed inLoop
  | .choose test whenTrue whenFalse =>
    test.enclosed inLoop && whenTrue.enclosed inLoop && whenFalse.enclosed inLoop
  | .settle _ first second => first.enclosed inLoop && second.enclosed inLoop
  | .bind _ values body => allEnclosed inLoop values && body.enclosed inLoop
  | .whileLoop test body => test.enclosed inLoop && allEnclosed true body
  | .forLoop start test step body =>
    start.enclosed inLoop && test.enclosed inLoop && step.enclosed true && allEnclosed true body
  | .leave _ => inLoop

def allEnclosed (inLoop : Bool) : List Form → Bool
  | [] => true
  | form :: later => form.enclosed inLoop && allEnclosed inLoop later

end

theorem allEnclosed_iff {inLoop : Bool} {forms : List Form} :
    allEnclosed inLoop forms = true ↔ ∀ form ∈ forms, form.enclosed inLoop = true := by
  induction forms with
  | nil => simp [allEnclosed]
  | cons form later ih => simp [allEnclosed, ih]

end Form

namespace Place

def Sound (place : Place) : Prop :=
  ∀ outer, place.loop = some outer → outer.scopes ≤ place.scopes ∧ outer.pending ≤ place.pending

def height (place : Place) : Height := ⟨place.pending, place.scopes⟩

def loopHeight (place : Place) : Option Height :=
  place.loop.map fun outer => ⟨outer.pending, outer.scopes⟩

theorem start_sound : start.Sound := by
  intro outer none
  cases none

variable {place : Place}

theorem Sound.inScope (sound : place.Sound) : place.inScope.Sound := by
  intro outer found
  obtain ⟨scopes, pending⟩ := sound outer found
  exact ⟨Nat.le_succ_of_le scopes, pending⟩

theorem Sound.behindOperand (sound : place.Sound) : place.behindOperand.Sound := by
  intro outer found
  obtain ⟨scopes, pending⟩ := sound outer found
  exact ⟨scopes, Nat.le_succ_of_le pending⟩

theorem inLoop_sound (place : Place) : place.inLoop.Sound := by
  intro outer found
  cases found
  exact ⟨Nat.le_refl _, Nat.le_refl _⟩

end Place

namespace Form

open Code

theorem laid_keep {loop : Option Height} {height : Height} {instr : Instr}
    (fits : instr.Fits loop (fun place => if place = 0 then height.more 2 else height.more 1) 1 0)
    (stays : ∀ base, instr.relocate base = instr) :
    Laid loop (height.more 1) (height.more 1) [.dup, instr] := by
  have copied : Laid loop (height.more 1) (height.more 2) [.dup] := by
    apply laid_single
    exact ⟨Nat.succ_pos _, rfl⟩
  exact laid_append copied (laid_single fits) (jumpless_single stays)

theorem leave_laid {place : Place} (sound : place.Sound) (inLoop : place.loop.isSome = true)
    (exit : Exit) :
    (Code.leave place exit).Laid place.loopHeight place.height (place.height.more 1) := by
  obtain ⟨outer, found⟩ := Option.isSome_iff_exists.mp inLoop
  obtain ⟨scopes, pending⟩ := sound outer found
  have popped : (⟨outer.pending, place.scopes⟩ : Height).more (place.pending - outer.pending) =
      place.height := by
    simp [Height.more, Place.height]
    omega
  have closed : (⟨outer.pending, outer.scopes⟩ : Height).opened (place.scopes - outer.scopes) =
      ⟨outer.pending, place.scopes⟩ := by
    simp [Height.opened]
    omega
  have pops : Laid place.loopHeight place.height ⟨outer.pending, place.scopes⟩
      (List.replicate (place.pending - outer.pending) .pop) := by
    rw [← popped]
    exact laid_pops _ _
  have closes : Laid place.loopHeight ⟨outer.pending, place.scopes⟩ ⟨outer.pending, outer.scopes⟩
      (List.replicate (place.scopes - outer.scopes) .closeScope) := by
    rw [← closed]
    exact laid_closeScopes _ _
  have way : Laid place.loopHeight ⟨outer.pending, outer.scopes⟩ place.height [.leave exit] := by
    apply laid_single
    simp [Instr.Fits, Place.loopHeight, found]
  have unreached : Laid place.loopHeight ⟨outer.pending, outer.scopes⟩ (place.height.more 1)
      [.leave exit, .push .nil] :=
    laid_append way (laid_push .nil _) (jumpless_single fun _ => rfl)
  have stays : jumpless [.leave exit, .push .nil] := by
    intro base
    rfl
  rw [Code.leave, found]
  exact laid_append pops (laid_append closes unreached stays)
    (jumpless_append (jumpless_replicate (fun _ => rfl) _) stays)

mutual

theorem code_laid (form : Form) {place : Place} (sound : place.Sound)
    (closed : form.enclosed place.loop.isSome = true) :
    (form.code place).Laid place.loopHeight place.height (place.height.more 1) := by
  match form with
  | .constant value => exact laid_push value _
  | .variable symbol => exact laid_single rfl
  | .function ref => exact laid_single rfl
  | .leave exit => exact leave_laid sound closed exit
  | .call symbol arguments =>
      have operands := operandCode_laid arguments sound closed
      refine laid_append operands (laid_single ?_) (jumpless_single fun _ => rfl)
      exact ⟨place.height, rfl, rfl⟩
  | .dispatch callee arguments =>
      simp only [enclosed, Bool.and_eq_true] at closed
      have head := code_laid callee sound closed.1
      have operands := operandCode_laid arguments sound.behindOperand closed.2
      refine laid_append (laid_followedBy head operands) (laid_single ?_)
        (jumpless_single fun _ => rfl)
      refine ⟨place.height, ?_, rfl⟩
      simp [Place.behindOperand, Place.height, Height.more]
      omega
  | .sequence first later =>
      simp only [enclosed, Bool.and_eq_true] at closed
      exact laid_followedBy (code_laid first sound closed.1) (laterCode_laid later sound closed.2)
  | .define symbol value =>
      exact laid_append (code_laid value sound closed) (laid_keep rfl fun _ => rfl) (fun _ => rfl)
  | .assign symbol value =>
      exact laid_append (code_laid value sound closed) (laid_keep rfl fun _ => rfl) (fun _ => rfl)
  | .choose test whenTrue whenFalse =>
      simp only [enclosed, Bool.and_eq_true] at closed
      exact laid_choose (code_laid test sound closed.1.1) (code_laid whenTrue sound closed.1.2)
        (code_laid whenFalse sound closed.2)
  | .settle stopsOn first second =>
      simp only [enclosed, Bool.and_eq_true] at closed
      exact laid_settle (code_laid first sound closed.1) (code_laid second sound closed.2)
  | .bind symbols values body =>
      simp only [enclosed, Bool.and_eq_true] at closed
      have bindings := bindingCode_laid symbols values sound.inScope closed.1
      have inner := code_laid body sound.inScope closed.2
      have opened := laid_followedBy (laid_openScope place.height)
        (laid_followedBy bindings (laid_followedBy inner (laid_nil _)))
      exact laid_append opened (laid_closeScope (place.height.more 1)) (jumpless_single fun _ => rfl)
  | .whileLoop test body =>
      simp only [enclosed, Bool.and_eq_true] at closed
      obtain ⟨inner, start, finish, fits⟩ := roundCode_laid body place.inLoop_sound closed.2
      have rounds := laid_loop (code_laid test sound closed.1) start finish fits (.inl rfl)
      exact laid_append rounds (laid_push .nil _) (jumpless_single fun _ => rfl)
  | .forLoop start test step body =>
      simp only [enclosed, Bool.and_eq_true] at closed
      obtain ⟨⟨⟨startClosed, testClosed⟩, stepClosed⟩, bodyClosed⟩ := closed
      have first := code_laid start sound.inScope startClosed
      have tested := code_laid test sound.inScope testClosed
      have round := roundCode_laid body place.inScope.inLoop_sound bodyClosed
      have stepped := laid_append (code_laid step place.inScope.inLoop_sound stepClosed)
        (laid_pop _) (jumpless_single fun _ => rfl)
      obtain ⟨inner, roundStart, stepStart, roundEnd, fits⟩ := laid_between round stepped
      have rounds := laid_loop tested roundStart roundEnd fits
        (.inr ⟨_, by simp [followedBy], rfl, stepStart⟩)
      have dropped := laid_append first (laid_pop _) (jumpless_single fun _ => rfl)
      have opened := laid_followedBy (laid_openScope place.height)
        (laid_followedBy dropped (laid_followedBy rounds (laid_nil _)))
      have closing : Laid place.loopHeight (place.height.opened 1) (place.height.more 1)
          [.closeScope, .push .nil] :=
        laid_append (laid_closeScope _) (laid_push .nil _) (jumpless_single fun _ => rfl)
      exact laid_append opened closing (fun _ => rfl)

theorem operandCode_laid (forms : List Form) {place : Place} (sound : place.Sound)
    (closed : allEnclosed place.loop.isSome forms = true) :
    (operandCode place forms).Laid place.loopHeight place.height
      (place.height.more forms.length) := by
  match forms with
  | [] => exact laid_nil _
  | form :: later =>
      simp only [allEnclosed, Bool.and_eq_true] at closed
      have others := operandCode_laid later sound.behindOperand closed.2
      have heights : place.behindOperand.height.more later.length =
          place.height.more (form :: later).length := by
        simp [Place.behindOperand, Place.height, Height.more]
        omega
      rw [heights] at others
      exact laid_followedBy (code_laid form sound closed.1) others

theorem laterCode_laid (forms : List Form) {place : Place} (sound : place.Sound)
    (closed : allEnclosed place.loop.isSome forms = true) :
    (laterCode place forms).Laid place.loopHeight (place.height.more 1)
      (place.height.more 1) := by
  match forms with
  | [] => exact laid_nil _
  | form :: later =>
      simp only [allEnclosed, Bool.and_eq_true] at closed
      have next := code_laid form sound closed.1
      have others := laterCode_laid later sound closed.2
      exact laid_followedBy (laid_pop _)
        (laid_followedBy next (laid_followedBy others (laid_nil _)))

theorem bindingCode_laid (symbols : List Symbol) (forms : List Form) {place : Place}
    (sound : place.Sound) (closed : allEnclosed place.loop.isSome forms = true) :
    (bindingCode place symbols forms).Laid place.loopHeight place.height place.height := by
  match symbols, forms with
  | [], _ =>
      rw [bindingCode]
      · exact laid_nil _
      · simp
  | _ :: _, [] => exact laid_nil _
  | symbol :: symbols, form :: later =>
      simp only [allEnclosed, Bool.and_eq_true] at closed
      have bound := laid_append (code_laid form sound closed.1)
        (laid_single rfl : Laid place.loopHeight (place.height.more 1) place.height [.put symbol])
        (jumpless_single fun _ => rfl)
      exact laid_followedBy bound (bindingCode_laid symbols later sound closed.2)

theorem roundCode_laid (forms : List Form) {place : Place} (sound : place.Sound)
    (closed : allEnclosed place.loop.isSome forms = true) :
    (roundCode place forms).Laid place.loopHeight place.height place.height := by
  match forms with
  | [] => exact laid_nil _
  | form :: later =>
      simp only [allEnclosed, Bool.and_eq_true] at closed
      have dropped := laid_append (code_laid form sound closed.1) (laid_pop _)
        (jumpless_single fun _ => rfl)
      exact laid_followedBy dropped (roundCode_laid later sound closed.2)

end

theorem programCode_laid {forms : List Form} (closed : allEnclosed false forms = true) :
    (programCode forms).Laid none ⟨0, 0⟩ ⟨if forms.isEmpty then 0 else 1, 0⟩ := by
  match forms with
  | [] => exact laid_nil _
  | first :: later =>
      simp only [allEnclosed, Bool.and_eq_true] at closed
      exact laid_followedBy (code_laid first Place.start_sound closed.1)
        (laterCode_laid later Place.start_sound closed.2)

end Form

end StackLisp
