import StackLisp.Proofs.Code.Height

/-!
Where the pieces of some code lie once it is placed: a piece made of others lies somewhere if they
lie behind each other there, with the jumps between them. A way out of a loop lies there as the jump
that the loop makes of it.
-/

namespace StackLisp

def Instr.placed (shift : Nat) (exits : Option (Exit → Nat)) : Instr → Instr
  | .leave exit =>
    match exits with
    | some target => .jump (target exit)
    | none => .leave exit
  | other => other.relocate shift

def Exit.towards (left next : Nat) : Exit → Nat
  | .leaveLoop => left
  | .nextRound => next

theorem placed_relocate (shift base : Nat) (exits : Option (Exit → Nat)) (instr : Instr) :
    (instr.relocate base).placed shift exits = instr.placed (shift + base) exits := by
  cases instr with
  | jump target => simp [Instr.relocate, Instr.placed, Nat.add_assoc, Nat.add_comm base]
  | branch direction target =>
      simp [Instr.relocate, Instr.placed, Nat.add_assoc, Nat.add_comm base]
  | _ => rfl

theorem placed_none (instr : Instr) : instr.placed 0 none = instr := by
  cases instr <;> rfl

theorem relocate_relocate (first second : Nat) (instr : Instr) :
    (instr.relocate first).relocate second = instr.relocate (first + second) := by
  cases instr with
  | jump target => simp [Instr.relocate, Nat.add_assoc]
  | branch direction target => simp [Instr.relocate, Nat.add_assoc]
  | _ => rfl

namespace Code

@[simp] theorem nil_followedBy (piece : Code) : Code.followedBy [] piece = piece :=
  map_relocate_zero piece

@[simp] theorem followedBy_nil (piece : Code) : piece.followedBy [] = piece :=
  List.append_nil piece

theorem concat_three (first second third : Code) :
    concat [first, second, third] = first.followedBy (second.followedBy third) := by
  simp only [concat, followedBy_nil]

theorem followedBy_assoc (first second third : Code) :
    (first.followedBy second).followedBy third = first.followedBy (second.followedBy third) := by
  simp [followedBy, relocate_relocate, Nat.add_comm]

def Lies (code : Array Instr) (exits : Option (Exit → Nat)) (shift : Nat) : Nat → Code → Prop
  | _, [] => True
  | start, instr :: later =>
    code[start]? = some (instr.placed shift exits) ∧ Lies code exits shift (start + 1) later

variable {code : Array Instr} {exits : Option (Exit → Nat)} {shift start : Nat}

@[simp] theorem lies_nil : Lies code exits shift start [] ↔ True := Iff.rfl

@[simp] theorem lies_cons {instr : Instr} {later : Code} :
    Lies code exits shift start (instr :: later) ↔
      code[start]? = some (instr.placed shift exits) ∧ Lies code exits shift (start + 1) later :=
  Iff.rfl

@[simp] theorem lies_append {first second : Code} :
    Lies code exits shift start (first ++ second) ↔
      Lies code exits shift start first ∧ Lies code exits shift (start + first.length) second := by
  induction first generalizing start with
  | nil => simp
  | cons instr later ih =>
      simp only [List.cons_append, lies_cons, ih, List.length_cons, and_assoc]
      rw [show start + 1 + later.length = start + (later.length + 1) by omega]

@[simp] theorem lies_relocate {base : Nat} {piece : Code} :
    Lies code exits shift start (piece.map (Instr.relocate base)) ↔
      Lies code exits (shift + base) start piece := by
  induction piece generalizing start with
  | nil => simp
  | cons instr later ih => simp [ih, placed_relocate]

theorem lies_toList {before piece after : Code}
    (whole : code.toList = before ++ (piece ++ after)) :
    Lies code none 0 before.length piece := by
  induction piece generalizing before with
  | nil => trivial
  | cons instr later ih =>
      refine ⟨?_, ?_⟩
      · rw [placed_none, ← Array.getElem?_toList, whole, List.getElem?_append_right (Nat.le_refl _)]
        simp
      · have next := @ih (before ++ [instr]) (by simpa using whole)
        simpa using next

theorem lies_followedBy {first second : Code} :
    Lies code exits start start (first.followedBy second) ↔
      Lies code exits start start first ∧
        Lies code exits (start + first.length) (start + first.length) second := by
  simp [followedBy]

theorem lies_closeLoop {exit next : Nat} {round : Code} :
    Lies code exits shift start (closeLoop exit next round) ↔
      Lies code (some (Exit.towards (shift + exit) (shift + next))) shift start round := by
  induction round generalizing start with
  | nil => simp [closeLoop]
  | cons instr later ih =>
      have tail : closeLoop exit next (instr :: later) =
          (closeLoop exit next [instr]) ++ closeLoop exit next later := rfl
      rw [tail, lies_append, ih, lies_cons]
      refine and_congr ?_ (by simp [closeLoop])
      cases instr with
      | leave way =>
          cases way <;>
            simp [closeLoop, Instr.placed, Instr.relocate, Exit.towards, Nat.add_comm]
      | _ => simp [closeLoop, Instr.placed]

theorem lies_choose {test whenTrue whenFalse : Code}
    (lies : Lies code exits start start (choose test whenTrue whenFalse)) :
    Lies code exits start start test ∧
      code[start + test.length]? =
        some (.branch false (start + test.length + 1 + whenTrue.length + 1)) ∧
      Lies code exits (start + test.length + 1) (start + test.length + 1) whenTrue ∧
      code[start + test.length + 1 + whenTrue.length]? =
        some (.jump (start + test.length + 1 + whenTrue.length + 1 + whenFalse.length)) ∧
      Lies code exits (start + test.length + 1 + whenTrue.length + 1)
        (start + test.length + 1 + whenTrue.length + 1) whenFalse := by
  simp only [choose, concat_pair, followedBy, lies_append, lies_cons, lies_nil, lies_relocate,
    List.length_append, List.length_map, List.length_singleton, Instr.placed, Instr.relocate] at lies
  obtain ⟨⟨⟨front, branch, _⟩, left⟩, jump, right⟩ := lies
  have whole (first second : Nat) : start + (first + second) = start + first + second :=
    (Nat.add_assoc ..).symm
  refine ⟨front, ?_, ?_, ?_, ?_⟩
  · rw [branch, Nat.add_comm _ start]
    simp only [whole]
  · simpa only [whole] using left
  · rw [Nat.add_comm _ start] at jump
    simpa only [whole] using jump
  · simpa only [whole] using right

theorem lies_settle {stopsOn : Bool} {first second : Code}
    (lies : Lies code exits start start (settle stopsOn first second)) :
    Lies code exits start start first ∧ code[start + first.length]? = some .dup ∧
      code[start + first.length + 1]? =
        some (.branch stopsOn (start + first.length + 3 + second.length)) ∧
      code[start + first.length + 2]? = some .pop ∧
      Lies code exits (start + first.length + 3) (start + first.length + 3) second := by
  simp only [settle, concat_pair, followedBy, lies_append, lies_cons, lies_nil, lies_relocate,
    List.length_append, List.length_cons, List.length_nil, Instr.placed, Instr.relocate] at lies
  obtain ⟨⟨front, dup, branch, pop, _⟩, back⟩ := lies
  refine ⟨front, dup, ?_, pop, ?_⟩
  · rw [branch, Nat.add_comm _ start]
    simp only [Nat.add_assoc]
  · simpa only [Nat.add_assoc] using back

@[simp] theorem followedBy_length (first second : Code) :
    (first.followedBy second).length = first.length + second.length := by
  simp [followedBy]

theorem choose_length (test whenTrue whenFalse : Code) :
    (choose test whenTrue whenFalse).length =
      test.length + 1 + whenTrue.length + 1 + whenFalse.length := by
  simp [choose, concat_pair]
  omega

theorem settle_length (stopsOn : Bool) (first second : Code) :
    (settle stopsOn first second).length = first.length + 3 + second.length := by
  simp [settle, concat_pair]

theorem loop_length (test round : Code) (next : Nat) :
    (loop test round next).length = test.length + 1 + round.length + 1 := by
  simp [loop, closeLoop]
  omega

theorem lies_loop {test round : Code} {next : Nat}
    (lies : Lies code exits start start (loop test round next)) :
    Lies code exits start start test ∧
      code[start + test.length]? =
        some (.branch false (start + test.length + 1 + round.length + 1)) ∧
      Lies code (some (Exit.towards (start + test.length + 1 + round.length + 1) (start + next)))
        (start + test.length + 1) (start + test.length + 1) round ∧
      code[start + test.length + 1 + round.length]? = some (.jump start) := by
  simp only [loop, lies_append, lies_cons, lies_nil, lies_closeLoop, lies_relocate, Instr.placed,
    Instr.relocate] at lies
  obtain ⟨front, branch, inner, jump, _⟩ := lies
  have whole (first second : Nat) : start + (first + second) = start + first + second :=
    (Nat.add_assoc ..).symm
  refine ⟨front, ?_, ?_, ?_⟩
  · rw [branch, Nat.add_comm _ start]
    simp only [whole]
  · simpa only [whole] using inner
  · rw [Nat.zero_add] at jump
    simpa [closeLoop] using jump

end Code

end StackLisp
