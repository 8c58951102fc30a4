import StackLisp.Proofs.Code.Height

/-!
Well-formed code. Jumps lead to places in the code or right behind it, no way out of a loop is left in
it, and every place has one height that all ways to it agree on.
-/

namespace StackLisp

def Height.less? (height : Height) (count : Nat) : Option Height :=
  if count ≤ height.data then some ⟨height.data - count, height.scopes⟩ else none

theorem Height.less?_more (height : Height) (count : Nat) :
    (height.more count).less? count = some height := by
  simp [less?, more]

namespace Instr

/-- The height behind an instruction, if there is all that it takes. A call takes what is called and
the arguments, and leaves one value. -/
def behind? (height : Height) : Instr → Option Height
  | .push _ | .get _ | .closure _ => some (height.more 1)
  | .dup => if 0 < height.data then some (height.more 1) else none
  | .pop | .put _ | .set _ | .branch _ _ => height.less? 1
  | .call _ count => (height.less? count).map fun below => below.more 1
  | .dispatch count => (height.less? (count + 1)).map fun below => below.more 1
  | .jump _ | .ret => some height
  | .openScope => some (height.opened 1)
  | .closeScope => if 0 < height.scopes then some ⟨height.data, height.scopes - 1⟩ else none
  | .leave _ => none

def target? : Instr → Option Nat
  | .jump target | .branch _ target => some target
  | _ => none

def next (place : Nat) : Instr → List Nat
  | .jump target => [target]
  | .branch _ target => [place + 1, target]
  | .ret => []
  | _ => [place + 1]

end Instr

namespace Code

/-- Heights for all places of some code, from that of its entry on: each instruction finds what it
takes, and leads to places of the height that it leaves. A return has one value to take along. -/
structure Measured (code : Code) (heights : Nat → Height) : Prop where
  entry : heights 0 = ⟨0, 0⟩
  edges : ∀ (place : Nat) (instr : Instr), code[place]? = some instr → ∃ height,
    instr.behind? (heights place) = some height ∧ ∀ next ∈ instr.next place, heights next = height
  returns : ∀ place : Nat, code[place]? = some .ret → heights place = ⟨1, 0⟩

structure WellFormed (code : Code) (finish : Height) : Prop where
  targets : ∀ instr ∈ code, ∀ target, instr.target? = some target → target ≤ code.length
  closed : ∀ exit, .leave exit ∉ code
  measured : ∃ heights, code.Measured heights ∧ heights code.length = finish

end Code

variable {heights : Nat → Height} {limit place : Nat} {instr : Instr}

theorem Instr.Fits.target_le (fits : instr.Fits none heights limit place) {target : Nat}
    (leads : instr.target? = some target) : target ≤ limit := by
  cases instr with
  | jump _ | branch _ _ =>
      cases leads
      exact fits.1
  | _ => cases leads

theorem Instr.Fits.edges (fits : instr.Fits none heights limit place) : ∃ height,
    instr.behind? (heights place) = some height ∧
      ∀ next ∈ instr.next place, heights next = height := by
  cases instr with
  | push _ | get _ | closure _ | openScope => exact ⟨_, rfl, by simpa [next, Fits] using fits⟩
  | dup =>
      obtain ⟨positive, behind⟩ := fits
      exact ⟨(heights place).more 1, if_pos positive, by simpa [next] using behind⟩
  | pop | put _ | set _ =>
      refine ⟨heights (place + 1), ?_, by simp [next]⟩
      rw [fits]
      exact Height.less?_more _ 1
  | call _ count =>
      obtain ⟨below, before, behind⟩ := fits
      refine ⟨below.more 1, ?_, by simpa [next] using behind⟩
      simp [behind?, before, Height.less?_more]
  | dispatch count =>
      obtain ⟨below, before, behind⟩ := fits
      refine ⟨below.more 1, ?_, by simpa [next] using behind⟩
      simp [behind?, before, Height.less?_more]
  | jump target => exact ⟨_, rfl, by simpa [next] using fits.2⟩
  | branch _ target =>
      obtain ⟨_, before, same⟩ := fits
      refine ⟨heights (place + 1), ?_, by simpa [next] using same⟩
      rw [before]
      exact Height.less?_more _ 1
  | closeScope =>
      simp only [Fits] at fits
      refine ⟨heights (place + 1), ?_, by simp [next]⟩
      simp [behind?, fits, Height.opened]
  | ret => cases fits
  | leave _ => cases fits

namespace Code

theorem fits_of_mem {code : Code} (fits : code.Fits none heights code.length 0)
    (member : instr ∈ code) :
    ∃ place, instr.Fits none heights code.length place := by
  obtain ⟨place, found⟩ := List.mem_iff_getElem?.mp member
  exact ⟨place, fits_at fits found⟩

theorem wellFormed_of_laid {code : Code} {finish : Height} (laid : code.Laid none ⟨0, 0⟩ finish) :
    code.WellFormed finish := by
  obtain ⟨heights, entry, last, fits⟩ := laid
  refine ⟨fun instr member target leads => ?_, fun exit member => ?_, heights, ⟨entry, ?_, ?_⟩, last⟩
  · obtain ⟨place, fits⟩ := fits_of_mem fits member
    exact fits.target_le leads
  · obtain ⟨place, fits⟩ := fits_of_mem fits member
    cases fits
  · exact fun place instr found => (fits_at fits found).edges
  · exact fun place found => (fits_at fits found).elim

theorem wellFormed_ret {code : Code} (laid : code.Laid none ⟨0, 0⟩ ⟨1, 0⟩) :
    Code.WellFormed (code ++ [.ret]) ⟨1, 0⟩ := by
  obtain ⟨heights, entry, last, fits⟩ := laid
  let behind := bridged heights code.length fun _ => ⟨1, 0⟩
  have inside {place : Nat} (bound : place ≤ code.length) : behind place = heights place :=
    bridged_front bound
  have fits : code.Fits none behind code.length 0 := fits_front (Nat.le_refl _) (fun _ => inside) fits
  have cases_of {place : Nat} {instr : Instr} (found : (code ++ [Instr.ret])[place]? = some instr) :
      code[place]? = some instr ∨ place = code.length ∧ instr = .ret := by
    rw [List.getElem?_append] at found
    split at found
    · exact .inl found
    next beyond =>
      obtain ⟨single, rfl⟩ := List.getElem?_eq_some_iff.mp found
      simp only [List.length_singleton] at single
      exact .inr ⟨by omega, by simp⟩
  refine ⟨fun instr member target leads => ?_, fun exit member => ?_, behind, ⟨?_, ?_, ?_⟩, ?_⟩
  · rcases List.mem_append.mp member with member | last
    · obtain ⟨place, fits⟩ := fits_of_mem fits member
      exact Nat.le_trans (fits.target_le leads) (by simp)
    · obtain rfl := List.mem_singleton.mp last
      cases leads
  · rcases List.mem_append.mp member with member | last
    · obtain ⟨place, fits⟩ := fits_of_mem fits member
      cases fits
    · cases List.mem_singleton.mp last
  · rw [inside (Nat.zero_le _), entry]
  · intro place instr found
    rcases cases_of found with found | ⟨rfl, rfl⟩
    · exact (fits_at fits found).edges
    · exact ⟨_, rfl, by simp [Instr.next]⟩
  · intro place found
    rcases cases_of found with found | ⟨rfl, _⟩
    · exact (fits_at fits found).elim
    · rw [inside (Nat.le_refl _), last]
  · rw [List.length_append]
    exact bridged_between

end Code

end StackLisp
