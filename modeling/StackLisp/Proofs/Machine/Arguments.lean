import StackLisp.Proofs.Machine.Dealing
import StackLisp.Proofs.Meaning.Filling

/-!
Binding the arguments of a call. A call is refused just when its arguments cannot all be dealt out, when
a parameter gets nothing, when something is left over that no rest parameter takes, or when a value is of
the wrong kind. Otherwise every parameter gets the one value that was dealt to it, the rest parameter
what is left over, and so each argument that is no keyword is bound once.
-/

namespace StackLisp

/-- How the arguments of a call are read: they all stand alone, unless a keyword among them names a
parameter. -/
def givenTo (parameters : List Parameter) (arguments : List Value) : List Given :=
  if arguments.any (namesParameter parameters) then readGiven arguments
  else arguments.map .plain

inductive Misfit (store : Store) (parameters : List Parameter) (rest : Option Symbol)
    (given : List Given) : Prop
  | undealt : Undealt parameters [] given → Misfit store parameters rest given
  | missing {index : Nat} : index < parameters.length →
    index ∉ places (deal parameters [] given) → Misfit store parameters rest given
  | surplus : rest = none → leftOver (deal parameters [] given) ≠ [] →
    Misfit store parameters rest given
  | kind {index : Nat} {parameter : Parameter} {expected : Kind} {value : Value} :
    parameters[index]? = some parameter → parameter.kind = some expected →
    (some index, value) ∈ deal parameters [] given →
    (store.kindOf value).assignableTo expected = false → Misfit store parameters rest given

/-- What a call binds: the parameters in order, each with the value that was dealt to it, and what is
left over. -/
structure Binds (store : Store) (parameters : List Parameter) (given : List Given)
    (values : List (Symbol × Value)) (surplus : List Value) : Prop where
  names : values.map Prod.fst = parameters.map Parameter.symbol
  dealt : ∀ index value, (values.map Prod.snd)[index]? = some value ↔
    (some index, value) ∈ deal parameters [] given
  kinds : ∀ (index : Nat) (parameter : Parameter) (expected : Kind) (value : Value),
    parameters[index]? = some parameter → parameter.kind = some expected →
    (values.map Prod.snd)[index]? = some value →
    (store.kindOf value).assignableTo expected = true
  remains : surplus = leftOver (deal parameters [] given)
  whole : (values.map Prod.snd ++ surplus).Perm (given.filterMap Given.value?)

/-! Filling the slots. -/

theorem fillFirst_given (value : Value) (given : List Value) (later : List (Option Value)) :
    Slots.fillFirst value (given.map some ++ none :: later) =
      some (given.map some ++ some value :: later) := by
  induction given with
  | nil => rfl
  | cons first others ih => simp [Slots.fillFirst, ih]

theorem fillFirst_full (value : Value) (given : List Value) :
    Slots.fillFirst value (given.map some) = none := by
  induction given with
  | nil => rfl
  | cons first others ih => simp [Slots.fillFirst, ih]

theorem fillInOrder_concat (count : Nat) (arguments : List Value) (value : Value) :
    fillInOrder count (arguments ++ [value]) = (fillInOrder count arguments).place value := by
  by_cases room : arguments.length < count
  · obtain ⟨more, rfl⟩ : ∃ more, count = arguments.length + more + 1 :=
      ⟨count - arguments.length - 1, by omega⟩
    have before : fillInOrder (arguments.length + more + 1) arguments =
        ⟨arguments.map some ++ none :: List.replicate more none, []⟩ := by
      simp [fillInOrder, List.take_of_length_le, Nat.add_assoc, ← List.replicate_succ]
    have behind : fillInOrder (arguments.length + more + 1) (arguments ++ [value]) =
        ⟨arguments.map some ++ some value :: List.replicate more none, []⟩ := by
      rw [fillInOrder, List.take_of_length_le (by simp)]
      have left : arguments.length + more + 1 - (arguments.length + 1) = more := by omega
      simp [left]
    rw [before, behind, Slots.place, fillFirst_given]
  · have full : count ≤ arguments.length := Nat.le_of_not_lt room
    have before : fillInOrder count arguments =
        ⟨(arguments.take count).map some, (arguments.drop count).reverse⟩ := by
      simp [fillInOrder, Nat.min_eq_left full]
    rw [before, Slots.place, fillFirst_full]
    simp [fillInOrder, List.take_append_of_le_length full, List.drop_append_of_le_length full,
      Nat.min_eq_left full]

theorem inOrder_hold {parameters : List Parameter} {before : List Value}
    {dealt : List (Option Nat × Value)} (arguments : List Value)
    (hold : (fillInOrder parameters.length before).Hold parameters.length dealt) :
    (fillInOrder parameters.length (before ++ arguments)).Hold parameters.length
      (dealt ++ deal parameters (places dealt) (arguments.map .plain)) := by
  induction arguments generalizing before dealt with
  | nil => simpa [deal] using hold
  | cons value later ih =>
      have next := hold.place value
      rw [← fillInOrder_concat] at next
      simpa [deal, places_concat] using ih next

theorem fillInOrder_fills (parameters : List Parameter) (arguments : List Value) :
    FillsAs parameters [] (arguments.map .plain)
      (.ok (fillInOrder parameters.length arguments)) := by
  have start : (fillInOrder parameters.length []).Hold parameters.length [] := by
    simpa [fillInOrder, Slots.empty] using Slots.Hold.empty parameters.length
  have hold := inOrder_hold arguments start
  rw [List.nil_append] at hold
  refine ⟨?_, hold⟩
  rintro (⟨member, isKeyword, -⟩ | member | repeated)
  · obtain ⟨value, -, rfl⟩ := List.mem_map.mp member
    cases isKeyword
  · obtain ⟨value, -, same⟩ := List.mem_map.mp member
    cases same
  · exact repeated hold.once

theorem slots_fill (function : String) (parameters : List Parameter) (arguments : List Value) :
    FillsAs parameters [] (givenTo parameters arguments)
      (if arguments.any (namesParameter parameters) then
        fillNamed function parameters arguments (.empty parameters.length)
      else .ok (fillInOrder parameters.length arguments)) := by
  unfold givenTo
  split
  · exact fillNamed_fills function arguments (.empty parameters.length)
  · exact fillInOrder_fills parameters arguments

/-! Completeness and kinds. -/

theorem firstMissing?_eq_none {parameters : List Parameter} {row : List (Option Value)}
    (same : row.length = parameters.length) :
    firstMissing? parameters row = none ↔ none ∉ row := by
  induction parameters generalizing row with
  | nil =>
      obtain rfl := List.length_eq_zero_iff.mp same
      simp [firstMissing?]
  | cons parameter parameters ih =>
      cases row with
      | nil => cases same
      | cons slot slots => cases slot <;> simp [firstMissing?, ih (Nat.succ.inj same)]

theorem values_of_filled {row : List (Option Value)} (filled : none ∉ row) :
    ∃ values : List Value, row = values.map some := by
  induction row with
  | nil => exact ⟨[], rfl⟩
  | cons slot slots ih =>
      cases slot with
      | none => exact absurd (List.mem_cons_self ..) filled
      | some value =>
          obtain ⟨values, same⟩ := ih fun member => filled (List.mem_cons_of_mem _ member)
          exact ⟨value :: values, by rw [same, List.map_cons]⟩

section Complete

variable {parameters : List Parameter} {slots : Slots} {dealt : List (Option Nat × Value)}

theorem Slots.Hold.filled_iff (hold : slots.Hold parameters.length dealt) :
    none ∉ slots.filled ↔ ∀ index < parameters.length, index ∈ places dealt := by
  rw [List.mem_iff_getElem?]
  simp only [hold.free_iff, not_exists, not_and, Decidable.not_not]

theorem Slots.Hold.count_gt (hold : slots.Hold parameters.length dealt)
    (left : leftOver dealt ≠ []) : parameters.length < slots.count := by
  have filled := hold.filled_iff.mpr (hold.full left)
  have whole : slots.filled.filter Option.isSome = slots.filled := by
    refine List.filter_eq_self.mpr fun slot member => ?_
    cases slot with
    | none => exact absurd member filled
    | some value => rfl
  have more : slots.surplus ≠ [] := by simpa [← hold.surplus] using left
  have positive := List.length_pos_iff.mpr more
  rw [Slots.count, whole, hold.size]
  omega

variable (function : String) {rest : Option Symbol} (named : Bool)

theorem checkComplete_missing {parameter : String}
    (missing : firstMissing? parameters slots.filled = some parameter) :
    ∃ cause, checkComplete function parameters rest named slots = .error cause := by
  simp only [checkComplete, missing]
  cases (Function.arityOf parameters rest).check function slots.count <;>
    cases (!slots.surplus.isEmpty && rest.isNone) <;> cases named <;> exact ⟨_, rfl⟩

theorem checkComplete_left (hold : slots.Hold parameters.length dealt)
    (left : leftOver dealt ≠ []) :
    ∃ cause, checkComplete function parameters none named slots = .error cause := by
  have tooMany : slots.count ≠ parameters.length := Nat.ne_of_gt (hold.count_gt left)
  have more : slots.surplus ≠ [] := by simpa [← hold.surplus] using left
  refine ⟨.argCount function (decimalText parameters.length) slots.count, ?_⟩
  simp [checkComplete, more, Function.arityOf, Arity.check, Arity.accepts, Arity.text, tooMany]
  rfl

theorem checkComplete_passes (hold : slots.Hold parameters.length dealt)
    (complete : firstMissing? parameters slots.filled = none)
    (allowed : rest = none → leftOver dealt = []) :
    checkComplete function parameters rest named slots = .ok () := by
  have passes : (!slots.surplus.isEmpty && rest.isNone) = false := by
    cases rest with
    | some symbol => simp
    | none =>
        have nothing := hold.surplus.trans (allowed rfl)
        simp [List.reverse_eq_nil_iff.mp nothing]
  simp only [checkComplete, passes, complete]
  rfl

end Complete

section Kinds

variable {store : Store} {parameters : List Parameter} {row : List Value}

def RowFits (store : Store) (parameters : List Parameter) (row : List Value) : Prop :=
  ∀ (index : Nat) (parameter : Parameter) (expected : Kind) (value : Value),
    parameters[index]? = some parameter → parameter.kind = some expected →
    row[index]? = some value → (store.kindOf value).assignableTo expected = true

theorem rowFits_cons {parameter : Parameter} {value : Value} :
    RowFits store (parameter :: parameters) (value :: row) ↔
      (∀ expected, parameter.kind = some expected →
        (store.kindOf value).assignableTo expected = true) ∧ RowFits store parameters row := by
  constructor
  · intro fits
    exact ⟨fun expected typed => fits 0 parameter expected value rfl typed rfl,
      fun index other expected held => fits (index + 1) other expected held⟩
  · rintro ⟨first, others⟩ index other expected held found typed given
    cases index with
    | zero =>
        cases found
        cases given
        exact first expected typed
    | succ index => exact others index other expected held found typed given

theorem checkKinds_cases (function : String) (same : row.length = parameters.length) :
    (RowFits store parameters row ∧ checkKinds store function parameters (row.map some) =
      .ok ((parameters.map Parameter.symbol).zip row)) ∨
    (¬RowFits store parameters row ∧
      ∃ cause, checkKinds store function parameters (row.map some) = .error cause) := by
  induction parameters generalizing row with
  | nil =>
      obtain rfl := List.length_eq_zero_iff.mp same
      exact .inl ⟨fun index _ _ _ found => by simp at found, rfl⟩
  | cons parameter parameters ih =>
      cases row with
      | nil => cases same
      | cons value row =>
          rw [rowFits_cons, List.map_cons, checkKinds]
          have others := ih (Nat.succ.inj same)
          cases typed : parameter.kind with
          | none =>
              rcases others with ⟨fits, bound⟩ | ⟨misfit, cause, refused⟩
              · exact .inl ⟨⟨fun _ none => (by cases none), fits⟩, by simp [bound, Except.map]⟩
              · exact .inr ⟨fun fits => misfit fits.2, cause, by simp [refused, Except.map]⟩
          | some expected =>
              cases fit : (store.kindOf value).assignableTo expected with
              | false =>
                  have differs : ¬∀ other, some expected = some other →
                      (store.kindOf value).assignableTo other = true := fun fits => by
                    simp [fits expected rfl] at fit
                  refine .inr ⟨fun fits => differs fits.1, .type (.parameterKind function
                    parameter.symbol.name expected (store.kindOf value)), by simp [fit]⟩
              | true =>
                  rcases others with ⟨fits, bound⟩ | ⟨misfit, cause, refused⟩
                  · refine .inl ⟨⟨fun other same => ?_, fits⟩, by simp [fit, bound, Except.map]⟩
                    cases same
                    exact fit
                  · exact .inr ⟨fun fits => misfit fits.2, cause, by simp [fit, refused, Except.map]⟩

end Kinds

/-! What is bound. -/

section Bound

variable {parameters : List Parameter} {dealt : List (Option Nat × Value)} {row : List Value}

theorem filterMap_places (part : List (Option Nat × Value))
    (held : ∀ index value, (some index, value) ∈ part → row[index]? = some value) :
    (places part).filterMap (fun index => row[index]?) =
      (part.filter fun entry => entry.1.isSome).map Prod.snd := by
  induction part with
  | nil => rfl
  | cons entry later ih =>
      obtain ⟨place, value⟩ := entry
      have others := ih fun index value member => held index value (List.mem_cons_of_mem _ member)
      cases place with
      | none => simpa [places] using others
      | some index =>
          have found := held index value (List.mem_cons_self ..)
          simpa [places, found] using others

theorem filterMap_range (row : List Value) :
    (List.range row.length).filterMap (fun index => row[index]?) = row := by
  induction row with
  | nil => rfl
  | cons value later ih =>
      rw [List.length_cons, List.range_succ_eq_map, List.filterMap_cons]
      simp [List.filterMap_map, ih]

theorem row_perm (held : ∀ index value, row[index]? = some value ↔ (some index, value) ∈ dealt)
    (once : (places dealt).Nodup) : (row ++ leftOver dealt).Perm (dealt.map Prod.snd) := by
  have spots : (List.range row.length).Perm (places dealt) := by
    rw [List.perm_ext_iff_of_nodup List.nodup_range once]
    intro index
    simp only [List.mem_range, mem_places, ← held, List.getElem?_eq_some_iff]
    exact ⟨fun inside => ⟨_, inside, rfl⟩, fun ⟨_, inside, _⟩ => inside⟩
  have placed : row.Perm ((dealt.filter fun entry => entry.1.isSome).map Prod.snd) := by
    rw [← filterMap_places dealt fun index value => (held index value).mpr]
    have given := spots.filterMap fun index => row[index]?
    rwa [filterMap_range] at given
  have whole := (List.filter_append_perm (fun entry => entry.1.isSome) dealt).map Prod.snd
  have rest : (dealt.filter fun entry => !entry.1.isSome) = dealt.filter fun entry => entry.1.isNone := by
    simp
  rw [List.map_append, rest] at whole
  exact (placed.append_right _).trans whole

theorem Slots.Hold.row_iff {slots : Slots} (hold : slots.Hold parameters.length dealt)
    (same : slots.filled = row.map some) (index : Nat) (value : Value) :
    row[index]? = some value ↔ (some index, value) ∈ dealt := by
  rw [← hold.filled, same, List.getElem?_map]
  cases row[index]? <;> simp

theorem Slots.Hold.binds {store : Store} {given : List Given} {slots : Slots}
    (hold : slots.Hold parameters.length (deal parameters [] given))
    (same : slots.filled = row.map some) (fits : RowFits store parameters row) :
    Binds store parameters given ((parameters.map Parameter.symbol).zip row)
      slots.surplus.reverse := by
  have length : row.length = parameters.length := by rw [← hold.size, same, List.length_map]
  have seconds : ((parameters.map Parameter.symbol).zip row).map Prod.snd = row :=
    List.map_snd_zip (by simp [length])
  constructor
  · exact List.map_fst_zip (by simp [length])
  · rw [seconds]
    exact hold.row_iff same
  · rwa [seconds]
  · exact hold.surplus
  · rw [seconds, hold.surplus, ← values_deal parameters []]
    exact row_perm (hold.row_iff same) hold.once

def bindSlots (store : Store) (function : String) (parameters : List Parameter)
    (rest : Option Symbol) (named : Bool) (slots : Slots) : Except Error BoundArguments := do
  checkComplete function parameters rest named slots
  let values ← checkKinds store function parameters slots.filled
  return ⟨values, slots.surplus.reverse⟩

variable {store : Store} {rest : Option Symbol} {given : List Given} {slots : Slots}

theorem bindSlots_cases (function : String) (named : Bool) (dealt : ¬Undealt parameters [] given)
    (hold : slots.Hold parameters.length (deal parameters [] given)) :
    (Misfit store parameters rest given ∧
      ∃ cause, bindSlots store function parameters rest named slots = .error cause) ∨
    (¬Misfit store parameters rest given ∧ ∃ values surplus,
      Binds store parameters given values surplus ∧
      bindSlots store function parameters rest named slots = .ok ⟨values, surplus⟩) := by
  cases missing : firstMissing? parameters slots.filled with
  | some parameter =>
      obtain ⟨cause, refused⟩ : ∃ cause,
          checkComplete function parameters rest named slots = .error cause :=
        checkComplete_missing function named missing
      have absent : ¬none ∉ slots.filled := by
        simp [← firstMissing?_eq_none hold.size, missing]
      simp only [hold.filled_iff, not_forall, exists_prop] at absent
      obtain ⟨index, inside, absent⟩ := absent
      exact .inl ⟨.missing inside absent, cause, by simp [bindSlots, refused]; rfl⟩
  | none =>
      by_cases tooMuch : rest = none ∧ leftOver (deal parameters [] given) ≠ []
      · obtain ⟨rfl, left⟩ := tooMuch
        obtain ⟨cause, refused⟩ := checkComplete_left function named hold left
        exact .inl ⟨.surplus rfl left, cause, by simp [bindSlots, refused]; rfl⟩
      · have passes := checkComplete_passes function named hold missing
          fun alone => by_contra fun left => tooMuch ⟨alone, left⟩
        have filled := (firstMissing?_eq_none hold.size).mp missing
        obtain ⟨row, same⟩ := values_of_filled filled
        have length : row.length = parameters.length := by
          rw [← hold.size, same, List.length_map]
        rcases checkKinds_cases function length with ⟨fits, paired⟩ | ⟨misfit, cause, refused⟩
        · refine .inr ⟨?_, _, _, hold.binds same fits, by simp [bindSlots, passes, same, paired]; rfl⟩
          rintro (undealt | ⟨inside, absent⟩ | ⟨alone, left⟩ | ⟨found, typed, member, differs⟩)
          · exact dealt undealt
          · exact absent (hold.filled_iff.mp filled _ inside)
          · exact tooMuch ⟨alone, left⟩
          · have fit := fits _ _ _ _ found typed ((hold.row_iff same _ _).mpr member)
            simp [differs] at fit
        · simp only [RowFits, not_forall, exists_prop, Bool.not_eq_true] at misfit
          obtain ⟨index, parameter, expected, value, found, typed, held, differs⟩ := misfit
          have member := (hold.row_iff same index value).mp held
          exact .inl ⟨.kind found typed member differs, cause, by
            simp [bindSlots, passes, same, refused]; rfl⟩

theorem bindArguments_cases (store : Store) (function : String) (parameters : List Parameter)
    (rest : Option Symbol) (arguments : List Value) :
    (Misfit store parameters rest (givenTo parameters arguments) ∧
      ∃ cause, bindArguments store function parameters rest arguments = .error cause) ∨
    (¬Misfit store parameters rest (givenTo parameters arguments) ∧ ∃ values surplus,
      Binds store parameters (givenTo parameters arguments) values surplus ∧
      bindArguments store function parameters rest arguments = .ok ⟨values, surplus⟩) := by
  have fills := slots_fill function parameters arguments
  have steps : bindArguments store function parameters rest arguments =
      (if arguments.any (namesParameter parameters) then
        fillNamed function parameters arguments (.empty parameters.length)
      else .ok (fillInOrder parameters.length arguments)) >>=
        bindSlots store function parameters rest (arguments.any (namesParameter parameters)) := by
    rw [bindArguments]
    split <;> rfl
  rw [steps]
  generalize arguments.any (namesParameter parameters) = named at fills ⊢
  generalize (if named then fillNamed function parameters arguments (.empty parameters.length)
    else .ok (fillInOrder parameters.length arguments)) = filling at fills ⊢
  generalize givenTo parameters arguments = given at fills ⊢
  cases filling with
  | error cause => exact .inl ⟨.undealt fills.1, cause, rfl⟩
  | ok slots => exact bindSlots_cases function named fills.1 fills.2

theorem Binds.inOrder {arguments : List Value} {values : List (Symbol × Value)} {surplus : List Value}
    (binds : Binds store parameters (arguments.map .plain) values surplus) :
    values.map Prod.snd = arguments.take parameters.length ∧
      surplus = arguments.drop parameters.length := by
  have hold : (fillInOrder parameters.length arguments).Hold parameters.length
      (deal parameters [] (arguments.map .plain)) := (fillInOrder_fills parameters arguments).2
  constructor
  · apply List.ext_getElem?
    intro index
    apply Option.ext
    intro value
    rw [binds.dealt, ← hold.filled, fillInOrder]
    by_cases inside : index < (arguments.take parameters.length).length
    · rw [List.getElem?_append_left (by simpa using inside), List.getElem?_map]
      cases (arguments.take parameters.length)[index]? <;> simp
    · have short := Nat.le_of_not_lt inside
      rw [List.getElem?_append_right (by simpa using short), List.getElem?_replicate]
      simp [List.getElem?_eq_none short]
  · rw [binds.remains, ← hold.surplus, fillInOrder, List.reverse_reverse]

end Bound

namespace Machine

/-- A call loses and doubles none of its arguments. It is refused just for a misfit, and leaves all as
it was then; else each parameter has one value and the rest parameter a list of what is left over. -/
theorem boundValues_dealt (name : String) (parameters : List Parameter) (rest : Option Symbol)
    (arguments : List Value) (world : World) :
    (givenTo parameters arguments).flatMap Given.arguments = arguments ∧
      ((Misfit world.store parameters rest (givenTo parameters arguments) ∧ ∃ cause,
          boundValues name parameters rest arguments world = .error (.error cause) world) ∨
        (¬Misfit world.store parameters rest (givenTo parameters arguments) ∧
          ∃ values surplus list store,
          Binds world.store parameters (givenTo parameters arguments) values surplus ∧
          (arguments.any (namesParameter parameters) = false →
            values.map Prod.snd = arguments.take parameters.length ∧
              surplus = arguments.drop parameters.length) ∧
          world.store.newList surplus = (list, store) ∧ list.items? = some surplus ∧
          (rest = none → surplus = [] ∧
            boundValues name parameters rest arguments world = .ok values world) ∧
          ∀ symbol, rest = some symbol → boundValues name parameters rest arguments world =
            .ok (values ++ [(symbol, list)]) { world with store })) := by
  have whole : (givenTo parameters arguments).flatMap Given.arguments = arguments := by
    unfold givenTo
    split
    · exact arguments_readGiven arguments
    · simp [List.flatMap_map, Given.arguments]
  refine ⟨whole, ?_⟩
  rcases bindArguments_cases world.store name parameters rest arguments with
    ⟨misfit, cause, refused⟩ | ⟨fits, values, surplus, binds, bound⟩
  · refine .inl ⟨misfit, cause, ?_⟩
    rw [boundValues, bind_apply, ask_apply, refused]
    rfl
  · refine .inr ⟨fits, values, surplus, _, _, binds, fun plain => ?_, rfl,
      world.store.items?_newList surplus, ?_, ?_⟩
    · rw [givenTo, plain] at binds
      exact binds.inOrder
    · rintro rfl
      have nothing : surplus = [] := by_contra fun left => fits (.surplus rfl (binds.remains ▸ left))
      refine ⟨nothing, ?_⟩
      rw [boundValues, bind_apply, ask_apply, bound]
      rfl
    · rintro symbol rfl
      rw [boundValues, bind_apply, ask_apply, bound]
      rfl

example :
    let parameter (name : String) (id : Nat) : Parameter := ⟨⟨name, id, false⟩, none⟩
    let keyword (name : String) (id : Nat) : Value := .symbol ⟨name, id, true⟩
    bindArguments default "f" [parameter "a" 1, parameter "b" 2, parameter "c" 3]
        (some ⟨"more", 4, false⟩)
        [.int 1, keyword "c" 3, keyword "b" 2, .int 2, .int 3, .int 4] =
      .ok ⟨[(⟨"a", 1, false⟩, .int 1), (⟨"b", 2, false⟩, .int 2), (⟨"c", 3, false⟩, keyword "b" 2)],
        [.int 3, .int 4]⟩ := rfl

theorem boundValues_refused_iff (name : String) (parameters : List Parameter) (rest : Option Symbol)
    (arguments : List Value) (world : World) :
    (∃ cause, boundValues name parameters rest arguments world = .error (.error cause) world) ↔
      Misfit world.store parameters rest (givenTo parameters arguments) := by
  rw [boundValues, bind_apply, ask_apply]
  rcases bindArguments_cases world.store name parameters rest arguments with
    ⟨misfit, cause, refused⟩ | ⟨fits, values, surplus, _, bound⟩
  · rw [refused]
    exact ⟨fun _ => misfit, fun _ => ⟨cause, rfl⟩⟩
  · rw [bound]
    refine ⟨?_, fun misfit => absurd misfit fits⟩
    rintro ⟨cause, failed⟩
    cases rest <;> cases failed

/-- A keyword that names no parameter has the call refused if another keyword names one, or if all
arguments, the keywords among them, do not fit the parameters in order. -/
theorem boundValues_unknown (name : String) {parameters : List Parameter} (rest : Option Symbol)
    {arguments : List Value} (world : World) {piece : Given} {keyword : Symbol}
    (met : piece ∈ readGiven arguments) (isKeyword : piece.keyword? = some keyword)
    (unnamed : parameterIndex? parameters keyword.id = none) :
    ((∃ cause, boundValues name parameters rest arguments world = .error (.error cause) world) ↔
      arguments.any (namesParameter parameters) = true ∨
        Misfit world.store parameters rest (arguments.map .plain)) ∧
    (arguments.any (namesParameter parameters) = true → ∃ problem,
      boundValues name parameters rest arguments world =
        .error (.error (.runtime problem)) world) := by
  have unread : Undealt parameters [] (readGiven arguments) := .unknown met isKeyword unnamed
  constructor
  · rw [boundValues_refused_iff, givenTo]
    split
    next named => exact ⟨fun _ => .inl named, fun _ => .undealt unread⟩
    next plain => simp [plain]
  · intro named
    have fills := fillNamed_fills name arguments (Slots.Hold.empty parameters.length)
    cases filling : fillNamed name parameters arguments (.empty parameters.length) with
    | ok slots =>
        rw [filling] at fills
        exact absurd unread fills.1
    | error cause =>
        rw [filling] at fills
        obtain ⟨-, problem, rfl⟩ := fills
        refine ⟨problem, ?_⟩
        rw [boundValues, bind_apply, ask_apply, bindArguments, if_pos named, filling]
        rfl

theorem boundValues_unknown_misspelt :
    let parameters : List Parameter := [⟨⟨"a", 1, false⟩, none⟩, ⟨⟨"b", 2, false⟩, none⟩]
    let arguments : List Value :=
      [.symbol ⟨"a", 1, true⟩, .int 1, .symbol ⟨"c", 3, true⟩, .int 2]
    ∃ problem, boundValues "f" parameters none arguments default =
      .error (.error (.runtime problem)) default := by
  intro parameters arguments
  have met : .named ⟨"c", 3, true⟩ (.int 2) ∈ readGiven arguments := by decide
  exact (boundValues_unknown "f" none default met rfl (by decide)).2 (by decide)

end Machine

/-- In `(f c: 1)` the misspelt keyword is the value of the first parameter, and the call comes to it. -/
theorem Interpreter.misspelt_bound :
    let parameters : List Parameter := [⟨⟨"a", 1, false⟩, none⟩, ⟨⟨"b", 2, false⟩, none⟩]
    let keyword : Symbol := ⟨"c", 3, true⟩
    readGiven [.symbol keyword, .int 1] = [.named keyword (.int 1)] ∧
      parameterIndex? parameters keyword.id = none ∧
      bindArguments default "f" parameters none [.symbol keyword, .int 1] =
        .ok ⟨[(⟨"a", 1, false⟩, .symbol keyword), (⟨"b", 2, false⟩, .int 1)], []⟩ ∧
      (Machine.attempt do
        let value ← evalText .none 30 "(defn f [a b] a) (f c: 1)"
        Machine.readStore fun store => store.text value :
          Machine (Except Error String)).run' (fresh ⟨10000, 32, false, false, false⟩) =
        some (.ok "c:") := by
  refine ⟨by decide, by decide, rfl, ?_⟩
  decide +kernel

end StackLisp
