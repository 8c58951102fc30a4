import StackLisp.Form.Compile

/-!
Heights in code. Each place in a piece of code has one data height and one scope height, whichever
way it is reached: instructions lead from the height in front of them to the height behind them,
and jumps to a place of the height that they come from.
-/

namespace StackLisp

structure Height where
  data : Nat
  scopes : Nat
  deriving DecidableEq, Repr

namespace Height

def more (height : Height) (count : Nat) : Height := ⟨height.data + count, height.scopes⟩

def opened (height : Height) (count : Nat) : Height := ⟨height.data, height.scopes + count⟩

@[simp] theorem more_zero (height : Height) : height.more 0 = height := rfl

theorem more_more (height : Height) (first second : Nat) :
    (height.more first).more second = height.more (first + second) := by
  simp [more, Nat.add_assoc]

@[simp] theorem opened_zero (height : Height) : height.opened 0 = height := rfl

theorem opened_opened (height : Height) (first second : Nat) :
    (height.opened first).opened second = height.opened (first + second) := by
  simp [opened, Nat.add_assoc]

end Height

/-- An instruction at a place keeps to the heights of the places that it leads to. A way out of a
loop keeps to the height of the loop, and no place behind it is reached from it. -/
def Instr.Fits (loop : Option Height) (heights : Nat → Height) (limit place : Nat) :
    Instr → Prop
  | .push _ | .get _ | .closure _ => heights (place + 1) = (heights place).more 1
  | .dup => 0 < (heights place).data ∧ heights (place + 1) = (heights place).more 1
  | .pop | .put _ | .set _ => heights place = (heights (place + 1)).more 1
  | .call _ count => ∃ below : Height,
      heights place = below.more count ∧ heights (place + 1) = below.more 1
  | .dispatch count => ∃ below : Height,
      heights place = below.more (count + 1) ∧ heights (place + 1) = below.more 1
  | .jump target => target ≤ limit ∧ heights target = heights place
  | .branch _ target => target ≤ limit ∧ heights place = (heights (place + 1)).more 1 ∧
      heights target = heights (place + 1)
  | .ret => False
  | .openScope => heights (place + 1) = (heights place).opened 1
  | .closeScope => heights place = (heights (place + 1)).opened 1
  | .leave _ => loop = some (heights place)

namespace Code

def Fits (loop : Option Height) (heights : Nat → Height) (limit place : Nat) : Code → Prop
  | [] => True
  | instr :: later =>
    instr.Fits loop heights limit place ∧ Fits loop heights limit (place + 1) later

def Laid (loop : Option Height) (before after : Height) (code : Code) : Prop :=
  ∃ heights, heights 0 = before ∧ heights code.length = after ∧
    code.Fits loop heights code.length 0

variable {loop : Option Height} {heights : Nat → Height} {limit : Nat}

theorem fits_append {place : Nat} {first second : Code} :
    (first ++ second).Fits loop heights limit place ↔
      first.Fits loop heights limit place ∧
        second.Fits loop heights limit (place + first.length) := by
  induction first generalizing place with
  | nil => simp [Fits]
  | cons instr later ih =>
      simp only [List.cons_append, Fits, ih, List.length_cons, and_assoc]
      rw [show place + 1 + later.length = place + (later.length + 1) by omega]

theorem fits_at {code : Code} (fits : code.Fits loop heights limit 0) {place : Nat} {instr : Instr}
    (found : code[place]? = some instr) : instr.Fits loop heights limit place := by
  have shifted : ∀ (code : Code) (start : Nat), code.Fits loop heights limit start →
      ∀ place, code[place]? = some instr → instr.Fits loop heights limit (start + place) := by
    intro code
    induction code with
    | nil => simp
    | cons first later ih =>
        intro start fits place found
        cases place with
        | zero =>
            cases found
            exact fits.1
        | succ place =>
            have later := ih (start + 1) fits.2 place found
            rwa [show start + 1 + place = start + (place + 1) by omega] at later
  simpa using shifted code 0 fits place found

theorem fits_relocate {inner : Nat → Height} {size base : Nat} (room : base + size ≤ limit)
    (agree : ∀ place ≤ size, heights (base + place) = inner place) {code : Code} {start : Nat}
    (inside : start + code.length ≤ size) (fits : code.Fits loop inner size start) :
    Fits loop heights limit (base + start) (code.map (Instr.relocate base)) := by
  induction code generalizing start with
  | nil => trivial
  | cons instr later ih =>
      rw [List.length_cons] at inside
      refine ⟨?_, ih (by omega) fits.2⟩
      have here := agree start (by omega)
      have next : heights (base + start + 1) = inner (start + 1) := agree (start + 1) (by omega)
      have target (place : Nat) (bound : place ≤ size) : heights (place + base) = inner place := by
        rw [Nat.add_comm]
        exact agree place bound
      have fits := fits.1
      cases instr with
      | jump place =>
          obtain ⟨bound, same⟩ := fits
          exact ⟨by omega, by rw [target place bound, here, same]⟩
      | branch direction place =>
          obtain ⟨bound, popped, same⟩ := fits
          exact ⟨by omega, by rw [here, next, popped], by rw [target place bound, next, same]⟩
      | ret => exact fits.elim
      | _ =>
          simp only [Instr.Fits, Instr.relocate, here, next] at fits ⊢
          exact fits

theorem map_relocate_zero (code : Code) : code.map (Instr.relocate 0) = code := by
  have same : ∀ instr : Instr, instr.relocate 0 = instr := by
    intro instr
    cases instr <;> rfl
  exact (List.map_congr_left fun instr _ => same instr).trans (List.map_id code)

theorem fits_front {inner : Nat → Height} {code : Code} (room : code.length ≤ limit)
    (agree : ∀ place ≤ code.length, heights place = inner place)
    (fits : code.Fits loop inner code.length 0) : code.Fits loop heights limit 0 := by
  have moved : Fits loop heights limit (0 + 0) (code.map (Instr.relocate 0)) :=
    fits_relocate (by omega) (by simpa using agree) (by omega) fits
  rwa [map_relocate_zero] at moved

/-! Code made of laid code. -/

theorem laid_nil (height : Height) : Laid loop height height [] :=
  ⟨fun _ => height, rfl, rfl, trivial⟩

theorem laid_single {before after : Height} {instr : Instr}
    (fits : instr.Fits loop (fun place => if place = 0 then before else after) 1 0) :
    Laid loop before after [instr] :=
  ⟨fun place => if place = 0 then before else after, rfl, rfl, fits, trivial⟩

theorem laid_between {before between after : Height} {first second : Code}
    (firstLaid : Laid loop before between first) (secondLaid : Laid loop between after second) :
    ∃ heights, heights 0 = before ∧ heights first.length = between ∧
      heights (first.followedBy second).length = after ∧
      (first.followedBy second).Fits loop heights (first.followedBy second).length 0 := by
  obtain ⟨front, frontStart, frontEnd, frontFits⟩ := firstLaid
  obtain ⟨back, backStart, backEnd, backFits⟩ := secondLaid
  let joined (place : Nat) : Height :=
    if place ≤ first.length then front place else back (place - first.length)
  have inFront : ∀ place ≤ first.length, joined place = front place := by
    intro place bound
    exact if_pos bound
  have inBack : ∀ place ≤ second.length, joined (first.length + place) = back place := by
    intro place _
    by_cases start : place = 0
    · subst start
      rw [Nat.add_zero, inFront _ (Nat.le_refl _), frontEnd, backStart]
    · have behind : ¬first.length + place ≤ first.length := by omega
      simp [joined, behind]
  have size : (first.followedBy second).length = first.length + second.length := by
    simp [followedBy]
  refine ⟨joined, ?_, ?_, ?_, ?_⟩
  · rw [inFront 0 (by omega), frontStart]
  · rw [inFront _ (Nat.le_refl _), frontEnd]
  · rw [size, inBack _ (Nat.le_refl _), backEnd]
  · rw [followedBy, fits_append]
    rw [followedBy] at size
    refine ⟨fits_front (by omega) inFront frontFits, ?_⟩
    rw [Nat.zero_add]
    exact fits_relocate (by omega) inBack (Nat.le_of_eq (Nat.zero_add _)) backFits

theorem laid_followedBy {before between after : Height} {first second : Code}
    (firstLaid : Laid loop before between first) (secondLaid : Laid loop between after second) :
    Laid loop before after (first.followedBy second) := by
  obtain ⟨heights, start, _, finish, fits⟩ := laid_between firstLaid secondLaid
  exact ⟨heights, start, finish, fits⟩

/-- Instructions that jump nowhere stand the same wherever they are placed. -/
def jumpless (code : Code) : Prop := ∀ base, code.map (Instr.relocate base) = code

theorem laid_append {before between after : Height} {first second : Code}
    (firstLaid : Laid loop before between first) (secondLaid : Laid loop between after second)
    (stays : jumpless second) : Laid loop before after (first ++ second) := by
  have joined := laid_followedBy firstLaid secondLaid
  rwa [followedBy, stays] at joined

theorem jumpless_single {instr : Instr} (stays : ∀ base, instr.relocate base = instr) :
    jumpless [instr] := by
  intro base
  simp [stays]

theorem jumpless_append {first second : Code} (firstStays : jumpless first)
    (secondStays : jumpless second) : jumpless (first ++ second) := by
  intro base
  rw [List.map_append, firstStays, secondStays]

theorem jumpless_replicate {instr : Instr} (stays : ∀ base, instr.relocate base = instr)
    (count : Nat) : jumpless (List.replicate count instr) := by
  intro base
  simp [stays]

theorem laid_push (value : Value) (height : Height) :
    Laid loop height (height.more 1) [.push value] :=
  laid_single rfl

theorem laid_pop (height : Height) : Laid loop (height.more 1) height [.pop] := laid_single rfl

theorem laid_pops (count : Nat) (height : Height) :
    Laid loop (height.more count) height (List.replicate count .pop) := by
  induction count with
  | zero => exact laid_nil height
  | succ count ih =>
      have first : Laid loop (height.more (count + 1)) (height.more count) [.pop] := by
        rw [← Height.more_more]
        exact laid_pop _
      exact laid_append first ih (jumpless_replicate (fun _ => rfl) count)

theorem laid_openScope (height : Height) : Laid loop height (height.opened 1) [.openScope] :=
  laid_single rfl

theorem laid_closeScope (height : Height) : Laid loop (height.opened 1) height [.closeScope] :=
  laid_single rfl

theorem laid_closeScopes (count : Nat) (height : Height) :
    Laid loop (height.opened count) height (List.replicate count .closeScope) := by
  induction count with
  | zero => exact laid_nil height
  | succ count ih =>
      have first : Laid loop (height.opened (count + 1)) (height.opened count) [.closeScope] := by
        rw [← Height.opened_opened]
        exact laid_closeScope _
      exact laid_append first ih (jumpless_replicate (fun _ => rfl) count)

theorem concat_pair (first second : Code) : concat [first, second] = first.followedBy second := by
  simp [concat, followedBy]

def bridged (front : Nat → Height) (size : Nat) (back : Nat → Height) (place : Nat) : Height :=
  if place ≤ size then front place else back (place - (size + 1))

section Bridged

variable {front back : Nat → Height} {size place : Nat}

theorem bridged_front (inFront : place ≤ size) : bridged front size back place = front place :=
  if_pos inFront

theorem bridged_back : bridged front size back (size + 1 + place) = back place := by
  have notFront : ¬size + 1 + place ≤ size := by omega
  simp [bridged, notFront]

theorem bridged_between : bridged front size back (size + 1) = back 0 := @bridged_back front back size 0

end Bridged

theorem laid_choose {height after : Height} {test whenTrue whenFalse : Code}
    (testLaid : Laid loop height (height.more 1) test) (trueLaid : Laid loop height after whenTrue)
    (falseLaid : Laid loop height after whenFalse) :
    Laid loop height after (choose test whenTrue whenFalse) := by
  obtain ⟨front, frontStart, frontEnd, frontFits⟩ := testLaid
  obtain ⟨left, leftStart, leftEnd, leftFits⟩ := trueLaid
  obtain ⟨right, rightStart, rightEnd, rightFits⟩ := falseLaid
  let joined := bridged front test.length (bridged left whenTrue.length right)
  have inFront : ∀ place ≤ test.length, joined place = front place := fun _ => bridged_front
  have inLeft : ∀ place ≤ whenTrue.length, joined (test.length + 1 + place) = left place :=
    fun _ bound => bridged_back.trans (bridged_front bound)
  have inRight : ∀ place ≤ whenFalse.length,
      joined (test.length + 1 + whenTrue.length + 1 + place) = right place := by
    intro place _
    rw [show test.length + 1 + whenTrue.length + 1 + place =
      test.length + 1 + (whenTrue.length + 1 + place) by omega]
    exact bridged_back.trans bridged_back
  have startLeft : joined (test.length + 1) = height := (inLeft 0 (Nat.zero_le _)).trans leftStart
  have startRight : joined (test.length + 1 + whenTrue.length + 1) = height :=
    (inRight 0 (Nat.zero_le _)).trans rightStart
  have code : choose test whenTrue whenFalse =
      test ++ ([.branch false (test.length + 1 + whenTrue.length + 1)] ++
        (whenTrue.map (Instr.relocate (test.length + 1)) ++
          ([.jump (test.length + 1 + whenTrue.length + 1 + whenFalse.length)] ++
            whenFalse.map (Instr.relocate (test.length + 1 + whenTrue.length + 1))))) := by
    simp [choose, concat_pair, followedBy]
  have size : (choose test whenTrue whenFalse).length =
      test.length + 1 + whenTrue.length + 1 + whenFalse.length := by
    simp [code]
    omega
  refine ⟨joined, ?_, ?_, ?_⟩
  · rw [inFront 0 (by omega), frontStart]
  · rw [size, inRight _ (Nat.le_refl _), rightEnd]
  · rw [size, code]
    simp only [fits_append, List.length_map, List.length_singleton, Nat.zero_add]
    refine ⟨fits_front (by omega) inFront frontFits, ⟨?_, trivial⟩,
      fits_relocate (by omega) inLeft (Nat.le_of_eq (Nat.zero_add _)) leftFits,
      ⟨?_, trivial⟩, fits_relocate (by omega) inRight (Nat.le_of_eq (Nat.zero_add _)) rightFits⟩
    · refine ⟨by omega, ?_, ?_⟩
      · rw [inFront _ (Nat.le_refl _), frontEnd, startLeft]
      · rw [startRight, startLeft]
    · refine ⟨by omega, ?_⟩
      rw [inRight _ (Nat.le_refl _), rightEnd, inLeft _ (Nat.le_refl _), leftEnd]

theorem laid_settle {height : Height} {stopsOn : Bool} {first second : Code}
    (firstLaid : Laid loop height (height.more 1) first)
    (secondLaid : Laid loop height (height.more 1) second) :
    Laid loop height (height.more 1) (settle stopsOn first second) := by
  obtain ⟨front, frontStart, frontEnd, frontFits⟩ := firstLaid
  obtain ⟨back, backStart, backEnd, backFits⟩ := secondLaid
  let behindFirst := bridged (fun _ => height.more 2) 0 (bridged (fun _ => height.more 1) 0 back)
  let joined := bridged front first.length behindFirst
  have inFront : ∀ place ≤ first.length, joined place = front place := fun _ => bridged_front
  have behindDup : joined (first.length + 1) = height.more 2 := bridged_between
  have behindBranch : joined (first.length + 1 + 1) = height.more 1 := bridged_back
  have inBack : ∀ place ≤ second.length, joined (first.length + 3 + place) = back place := by
    intro place _
    rw [show first.length + 3 + place = first.length + 1 + (0 + 1 + (0 + 1 + place)) by omega]
    exact bridged_back.trans (bridged_back.trans bridged_back)
  have startBack : joined (first.length + 3) = height := (inBack 0 (Nat.zero_le _)).trans backStart
  have code : settle stopsOn first second =
      first ++ ([.dup, .branch stopsOn (first.length + 3 + second.length), .pop] ++
        second.map (Instr.relocate (first.length + 3))) := by
    simp [settle, concat_pair, followedBy]
  have size : (settle stopsOn first second).length = first.length + 3 + second.length := by
    simp [code]
    omega
  refine ⟨joined, ?_, ?_, ?_⟩
  · rw [inFront 0 (by omega), frontStart]
  · rw [size, inBack _ (Nat.le_refl _), backEnd]
  · rw [size, code]
    simp only [fits_append, Nat.zero_add]
    refine ⟨fits_front (by omega) inFront frontFits, ⟨⟨?_, ?_⟩, ⟨by omega, ?_, ?_⟩, ?_, trivial⟩,
      fits_relocate (by omega) inBack (Nat.le_of_eq (Nat.zero_add _)) backFits⟩
    · rw [inFront _ (Nat.le_refl _), frontEnd]
      exact Nat.succ_pos _
    · rw [behindDup, inFront _ (Nat.le_refl _), frontEnd, Height.more_more]
    · rw [behindDup, behindBranch, Height.more_more]
    · rw [inBack _ (Nat.le_refl _), backEnd, behindBranch]
    · change joined (first.length + 1 + 1) = (joined (first.length + 3)).more 1
      rw [behindBranch, startBack]

/-! Loops. -/

theorem fits_closeLoop {outer : Option Height} {height : Height} {exit next place : Nat}
    {code : Code} (exitBound : exit ≤ limit) (exitHeight : heights exit = height)
    (nextBound : next ≤ limit) (nextHeight : heights next = height)
    (fits : code.Fits (some height) heights limit place) :
    (closeLoop exit next code).Fits outer heights limit place := by
  induction code generalizing place with
  | nil => trivial
  | cons instr later ih =>
      refine ⟨?_, ih fits.2⟩
      have fits := fits.1
      cases instr with
      | leave way =>
          have same : height = heights place := Option.some.inj fits
          cases way with
          | leaveLoop => exact ⟨exitBound, by rw [exitHeight, same]⟩
          | nextRound => exact ⟨nextBound, by rw [nextHeight, same]⟩
      | _ => exact fits

/-- A loop ends at the height at which it began. Rounds go on at their own start, or at a place
inside of the round. -/
theorem laid_loop {height : Height} {test round : Code} {next : Nat} {inner : Nat → Height}
    (testLaid : Laid loop height (height.more 1) test) (roundStart : inner 0 = height)
    (roundEnd : inner round.length = height)
    (roundFits : round.Fits (some height) inner round.length 0)
    (goesOn : next = 0 ∨ ∃ place ≤ round.length, next = test.length + 1 + place ∧
      inner place = height) :
    Laid loop height height (Code.loop test round next) := by
  obtain ⟨front, frontStart, frontEnd, frontFits⟩ := testLaid
  let joined := bridged front test.length (bridged inner round.length fun _ => height)
  have inFront : ∀ place ≤ test.length, joined place = front place := fun _ => bridged_front
  have inRound : ∀ place ≤ round.length, joined (test.length + 1 + place) = inner place :=
    fun _ bound => bridged_back.trans (bridged_front bound)
  have behind : joined (test.length + 1 + round.length + 1) = height := by
    rw [Nat.add_assoc (test.length + 1)]
    exact bridged_back.trans bridged_between
  have start : joined 0 = height := by rw [inFront 0 (by omega), frontStart]
  have code : Code.loop test round next =
      test ++ ([.branch false (test.length + 1 + round.length + 1)] ++
        (closeLoop (test.length + 1 + round.length + 1) next
          (round.map (Instr.relocate (test.length + 1))) ++ [.jump 0])) := by
    simp [Code.loop]
  have closedSize : (closeLoop (test.length + 1 + round.length + 1) next
      (round.map (Instr.relocate (test.length + 1)))).length = round.length := by
    simp [closeLoop]
  have size : (Code.loop test round next).length = test.length + 1 + round.length + 1 := by
    rw [code, List.length_append, List.length_append, List.length_append, closedSize]
    simp
    omega
  have roundHere : Fits (some height) joined (test.length + 1 + round.length + 1)
      (test.length + 1) (round.map (Instr.relocate (test.length + 1))) :=
    fits_relocate (by omega) inRound (Nat.le_of_eq (Nat.zero_add _)) roundFits
  have nextPlace : next ≤ test.length + 1 + round.length + 1 ∧ joined next = height := by
    rcases goesOn with rfl | ⟨place, bound, rfl, same⟩
    · exact ⟨by omega, start⟩
    · exact ⟨by omega, by rw [inRound place bound, same]⟩
  have beforeRound : joined (test.length + 1) = height :=
    (inRound 0 (Nat.zero_le _)).trans roundStart
  refine ⟨joined, start, ?_, ?_⟩
  · rw [size, behind]
  · rw [size, code]
    simp only [fits_append, List.length_singleton, Nat.zero_add, closedSize]
    refine ⟨fits_front (by omega) inFront frontFits, ⟨⟨by omega, ?_, ?_⟩, trivial⟩,
      fits_closeLoop (by omega) behind nextPlace.1 nextPlace.2 roundHere, ⟨by omega, ?_⟩, trivial⟩
    · rw [inFront _ (Nat.le_refl _), frontEnd, beforeRound]
    · rw [behind, beforeRound]
    · rw [start, inRound _ (Nat.le_refl _), roundEnd]

end Code

end StackLisp
