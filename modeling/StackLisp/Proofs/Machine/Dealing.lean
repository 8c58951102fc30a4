import StackLisp.Proofs.Store.Fault

/-!
How the arguments of a call are dealt out to the parameters. The arguments are read from left to right,
each keyword with the argument behind it. A keyword deals its argument to the parameter that it names;
any other argument goes to the first parameter that nothing was dealt to before, and is left over when
there is none. The slots that are filled on the way hold just what was dealt.
-/

namespace StackLisp

inductive Given where
  | plain (value : Value)
  | named (keyword : Symbol) (value : Value)
  | bare (keyword : Symbol)
  deriving DecidableEq, Repr

namespace Given

def keyword? : Given → Option Symbol
  | .plain _ => none
  | .named keyword _ => some keyword
  | .bare keyword => some keyword

def value? : Given → Option Value
  | .plain value => some value
  | .named _ value => some value
  | .bare _ => none

def arguments : Given → List Value
  | .plain value => [value]
  | .named keyword value => [.symbol keyword, value]
  | .bare keyword => [.symbol keyword]

end Given

def readGiven : List Value → List Given
  | [] => []
  | argument :: later =>
    match argument.keyword? with
    | none => .plain argument :: readGiven later
    | some keyword =>
      match later with
      | [] => [.bare keyword]
      | value :: later => .named keyword value :: readGiven later

theorem keyword?_eq_some {argument : Value} {keyword : Symbol}
    (isKeyword : argument.keyword? = some keyword) : argument = .symbol keyword := by
  cases argument with
  | symbol s =>
      simp only [Value.keyword?] at isKeyword
      split at isKeyword
      · cases isKeyword
        rfl
      · cases isKeyword
  | _ => cases isKeyword

theorem arguments_readGiven (arguments : List Value) :
    (readGiven arguments).flatMap Given.arguments = arguments := by
  fun_induction readGiven with
  | case1 => rfl
  | case2 argument later _ ih => simp [Given.arguments, ih]
  | case3 argument keyword isKeyword => simp [Given.arguments, keyword?_eq_some isKeyword]
  | case4 argument keyword isKeyword value later ih =>
      simp [Given.arguments, keyword?_eq_some isKeyword, ih]

/-! Dealing. -/

def firstFree (count : Nat) (taken : List Nat) : Option Nat :=
  (List.range count).find? fun index => !taken.contains index

/-- Where each value goes when some parameters are taken already: to the parameter at a place, or, with
no place, to what is left over. -/
def deal (parameters : List Parameter) (taken : List Nat) : List Given → List (Option Nat × Value)
  | [] => []
  | .plain value :: later =>
    let place := firstFree parameters.length taken
    (place, value) :: deal parameters (taken ++ place.toList) later
  | .named keyword value :: later =>
    let place := parameterIndex? parameters keyword.id
    (place, value) :: deal parameters (taken ++ place.toList) later
  | .bare _ :: later => deal parameters taken later

def places (dealt : List (Option Nat × Value)) : List Nat := dealt.filterMap Prod.fst

def leftOver (dealt : List (Option Nat × Value)) : List Value :=
  (dealt.filter fun entry => entry.1.isNone).map Prod.snd

theorem places_concat (dealt : List (Option Nat × Value)) (place : Option Nat) (value : Value) :
    places (dealt ++ [(place, value)]) = places dealt ++ place.toList := by
  cases place <;> simp [places]

theorem leftOver_append (first second : List (Option Nat × Value)) :
    leftOver (first ++ second) = leftOver first ++ leftOver second := by
  simp [leftOver]

theorem mem_places {dealt : List (Option Nat × Value)} {index : Nat} :
    index ∈ places dealt ↔ ∃ value, (some index, value) ∈ dealt := by
  simp [places]

theorem values_deal (parameters : List Parameter) (taken : List Nat) (given : List Given) :
    (deal parameters taken given).map Prod.snd = given.filterMap Given.value? := by
  induction given generalizing taken with
  | nil => rfl
  | cons first later ih => cases first <;> simp [deal, List.filterMap_cons, Given.value?, ih]

theorem firstFree_eq_some {count index : Nat} {taken : List Nat} :
    firstFree count taken = some index ↔
      index < count ∧ index ∉ taken ∧ ∀ before < index, before ∈ taken := by
  simp [firstFree, List.find?_range_eq_some, and_left_comm]

theorem firstFree_eq_none {count : Nat} {taken : List Nat} :
    firstFree count taken = none ↔ ∀ index < count, index ∈ taken := by
  simp [firstFree]

/-! What slots hold. -/

structure Slots.Hold (count : Nat) (slots : Slots) (dealt : List (Option Nat × Value)) : Prop where
  size : slots.filled.length = count
  filled : ∀ index value, slots.filled[index]? = some (some value) ↔ (some index, value) ∈ dealt
  surplus : slots.surplus.reverse = leftOver dealt
  once : (places dealt).Nodup
  full : leftOver dealt ≠ [] → ∀ index < count, index ∈ places dealt

namespace Slots.Hold

variable {count : Nat} {slots : Slots} {dealt : List (Option Nat × Value)}

theorem empty (count : Nat) : Slots.Hold count (.empty count) [] where
  size := by simp [Slots.empty]
  filled := fun index value => by simp [Slots.empty, List.getElem?_replicate]
  surplus := rfl
  once := List.nodup_nil
  full := fun some => absurd rfl some

theorem free_iff (hold : Slots.Hold count slots dealt) (index : Nat) :
    slots.filled[index]? = some none ↔ index < count ∧ index ∉ places dealt := by
  rw [← hold.size, mem_places]
  simp only [← hold.filled]
  cases found : slots.filled[index]? with
  | none => simp [List.getElem?_eq_none_iff.mp found]
  | some slot =>
      have inside := (List.getElem?_eq_some_iff.mp found).1
      cases slot <;> simp [inside]

theorem put (hold : Slots.Hold count slots dealt) {index : Nat}
    (free : slots.filled[index]? = some none) (value : Value) :
    Slots.Hold count { slots with filled := slots.filled.set index (some value) }
      (dealt ++ [(some index, value)]) := by
  have inside := (hold.free_iff index).mp free
  have same : leftOver (dealt ++ [(some index, value)]) = leftOver dealt := by
    simp [leftOver]
  constructor
  · simpa using hold.size
  · intro other held
    rw [List.getElem?_set, List.mem_append, ← hold.filled]
    by_cases here : index = other
    · subst here
      rw [free]
      simp [hold.size, inside.1, eq_comm]
    · simp [here, Ne.symm here]
  · rw [same]
    exact hold.surplus
  · rw [places_concat]
    refine List.nodup_append.mpr ⟨hold.once, by simp, ?_⟩
    rintro other member _ last rfl
    rw [Option.toList_some, List.mem_singleton] at last
    exact inside.2 (last ▸ member)
  · rw [same, places_concat]
    exact fun some other bound => List.mem_append_left _ (hold.full some other bound)

theorem fillFirst_eq (value : Value) (row : List (Option Value)) :
    Slots.fillFirst value row =
      (row.findIdx? Option.isNone).map fun index => row.set index (some value) := by
  induction row with
  | nil => rfl
  | cons slot later ih =>
      cases slot with
      | none => rfl
      | some old =>
          rw [Slots.fillFirst, ih, List.findIdx?_cons]
          cases later.findIdx? Option.isNone <;> rfl

theorem firstFree_eq (hold : Slots.Hold count slots dealt) :
    slots.filled.findIdx? Option.isNone = firstFree count (places dealt) := by
  apply Option.ext
  intro index
  have free (place : Nat) (inside : place < slots.filled.length) :
      slots.filled[place].isNone ↔ place ∉ places dealt := by
    have known := hold.free_iff place
    rw [List.getElem?_eq_getElem inside, Option.some_inj, ← hold.size] at known
    simp [known, inside]
  rw [firstFree_eq_some, List.findIdx?_eq_some_iff_getElem]
  constructor
  · rintro ⟨inside, isFree, before⟩
    refine ⟨hold.size ▸ inside, (free index inside).mp isFree, fun other earlier => ?_⟩
    have taken := before other earlier
    rwa [free other (Nat.lt_trans earlier inside), Decidable.not_not] at taken
  · rintro ⟨bound, isFree, before⟩
    have inside : index < slots.filled.length := hold.size.symm ▸ bound
    refine ⟨inside, (free index inside).mpr isFree, fun other earlier isOpen => ?_⟩
    exact (free other (Nat.lt_trans earlier inside)).mp isOpen (before other earlier)

theorem place (hold : Slots.Hold count slots dealt) (value : Value) :
    Slots.Hold count (slots.place value)
      (dealt ++ [(firstFree count (places dealt), value)]) := by
  rw [Slots.place, fillFirst_eq, hold.firstFree_eq]
  cases found : firstFree count (places dealt) with
  | some index =>
      obtain ⟨inside, isFree, _⟩ := firstFree_eq_some.mp found
      exact hold.put ((hold.free_iff index).mpr ⟨inside, isFree⟩) value
  | none =>
      have taken := firstFree_eq_none.mp found
      refine ⟨hold.size, fun index held => ?_, ?_, ?_, ?_⟩
      · rw [List.mem_append, ← hold.filled]
        simp
      · change (value :: slots.surplus).reverse = _
        rw [List.reverse_cons, hold.surplus, leftOver_append]
        rfl
      · simpa [places_concat] using hold.once
      · simpa [places_concat] using fun _ => taken

end Slots.Hold

/-! Reading with keywords. -/

/-- Why pieces cannot all be dealt out: a keyword names no parameter, there is nothing behind it, or a
parameter would get two values. -/
inductive Undealt (parameters : List Parameter) (taken : List Nat) (given : List Given) : Prop
  | unknown {piece : Given} {keyword : Symbol} : piece ∈ given → piece.keyword? = some keyword →
    parameterIndex? parameters keyword.id = none → Undealt parameters taken given
  | bare {keyword : Symbol} : .bare keyword ∈ given → Undealt parameters taken given
  | twice : ¬(taken ++ places (deal parameters taken given)).Nodup → Undealt parameters taken given

section Named

variable {parameters : List Parameter} {taken : List Nat} {dealt : List (Option Nat × Value)}
  {piece : Given} {place : Option Nat} {value : Value} {later : List Given}

theorem parameterIndex?_lt {id index : Nat} (found : parameterIndex? parameters id = some index) :
    index < parameters.length := (List.findIdx?_eq_some_iff_getElem.mp found).1

theorem undealt_cons
    (first : deal parameters taken (piece :: later) =
      (place, value) :: deal parameters (taken ++ place.toList) later)
    (valued : piece.value? = some value)
    (known : ∀ keyword, piece.keyword? = some keyword →
      parameterIndex? parameters keyword.id ≠ none) :
    Undealt parameters taken (piece :: later) ↔
      Undealt parameters (taken ++ place.toList) later := by
  have same : taken ++ places (deal parameters taken (piece :: later)) =
      taken ++ place.toList ++ places (deal parameters (taken ++ place.toList) later) := by
    rw [first]
    cases place <;> simp [places]
  constructor
  · rintro (⟨member, isKeyword, unnamed⟩ | member | repeated)
    · rcases List.mem_cons.mp member with rfl | behind
      · exact absurd unnamed (known _ isKeyword)
      · exact .unknown behind isKeyword unnamed
    · rcases List.mem_cons.mp member with rfl | behind
      · cases valued
      · exact .bare behind
    · exact .twice (same ▸ repeated)
  · rintro (⟨member, isKeyword, unnamed⟩ | member | repeated)
    · exact .unknown (List.mem_cons_of_mem _ member) isKeyword unnamed
    · exact .bare (List.mem_cons_of_mem _ member)
    · exact .twice (same ▸ repeated)

def FillsAs (parameters : List Parameter) (dealt : List (Option Nat × Value)) (given : List Given) :
    Except Error Slots → Prop
  | .ok slots => ¬Undealt parameters (places dealt) given ∧
      slots.Hold parameters.length (dealt ++ deal parameters (places dealt) given)
  | .error cause => Undealt parameters (places dealt) given ∧ ∃ problem, cause = .runtime problem

theorem FillsAs.cons {result : Except Error Slots}
    (fills : FillsAs parameters (dealt ++ [(place, value)]) later result)
    (first : deal parameters (places dealt) (piece :: later) =
      (place, value) :: deal parameters (places dealt ++ place.toList) later)
    (valued : piece.value? = some value)
    (known : ∀ keyword, piece.keyword? = some keyword →
      parameterIndex? parameters keyword.id ≠ none) :
    FillsAs parameters dealt (piece :: later) result := by
  cases result with
  | ok slots =>
      simp only [FillsAs, places_concat, List.append_assoc] at fills
      rw [FillsAs, undealt_cons first valued known, first]
      exact fills
  | error cause =>
      simp only [FillsAs, places_concat] at fills
      rw [FillsAs, undealt_cons first valued known]
      exact fills

theorem readGiven_keyword {argument : Value} {keyword : Symbol} (behind : List Value)
    (isKeyword : argument.keyword? = some keyword) :
    ∃ piece pieces, readGiven (argument :: behind) = piece :: pieces ∧
      piece.keyword? = some keyword := by
  cases behind with
  | nil => exact ⟨.bare keyword, [], by simp [readGiven, isKeyword], rfl⟩
  | cons value others =>
      exact ⟨.named keyword value, readGiven others, by simp [readGiven, isKeyword], rfl⟩

theorem fillNamed_fills (function : String) (arguments : List Value) {slots : Slots}
    (hold : slots.Hold parameters.length dealt) :
    FillsAs parameters dealt (readGiven arguments)
      (fillNamed function parameters arguments slots) := by
  -- Each step of the filling reads one piece; a step that fails finds a reason in that piece.
  fun_induction fillNamed generalizing dealt with
  | case1 slots =>
      refine ⟨?_, by simpa [readGiven, deal] using hold⟩
      rintro (⟨member, -, -⟩ | member | repeated)
      · cases member
      · cases member
      · exact repeated (by simpa [readGiven, deal, places] using hold.once)
  | case2 argument later slots plain ih =>
      rw [readGiven, plain]
      exact (ih (hold.place argument)).cons rfl rfl fun _ isKeyword => by cases isKeyword
  | case3 argument later slots keyword isKeyword unnamed =>
      obtain ⟨piece, pieces, reading, named⟩ := readGiven_keyword later isKeyword
      rw [reading]
      exact ⟨.unknown (List.mem_cons_self ..) named unnamed, _, rfl⟩
  | case4 argument slots keyword isKeyword index found =>
      rw [readGiven, isKeyword]
      exact ⟨.bare (List.mem_cons_self ..), _, rfl⟩
  | case5 argument slots keyword isKeyword index found value later free ih =>
      rw [readGiven, isKeyword]
      refine (ih (hold.put free value)).cons (by rw [deal, found]) rfl fun other same => ?_
      cases same
      simp [found]
  | case6 argument slots keyword isKeyword index found value later parameter =>
      rename_i taken
      rw [readGiven, isKeyword]
      refine ⟨.twice fun apart => ?_, _, rfl⟩
      have free : index ∉ places dealt := fun member => by
        refine (List.nodup_append.mp apart).2.2 index member index ?_ rfl
        simp [deal, found, places]
      exact taken ((hold.free_iff index).mpr ⟨parameterIndex?_lt found, free⟩)

end Named

end StackLisp
