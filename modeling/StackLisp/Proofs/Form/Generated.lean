import StackLisp.Proofs.Machine.Adding

/-!
Generated code is well formed: that of a program and that of all functions inside of it, whatever the
expanders of forms do while it is generated.
-/

namespace StackLisp

namespace Form

theorem readAll_length {again : ReadPart} {context : Context} {values : List Value}
    {world after : World} {forms : List Form}
    (read : readAll again context values world = .ok forms after) :
    forms.length = values.length := by
  induction values generalizing world forms with
  | nil =>
      cases read
      rfl
  | cons value later ih =>
      rw [readAll, List.mapM_cons, Machine.bind_apply] at read
      cases first : again .form context value world with
      | ok form between =>
          rw [first] at read
          dsimp only at read
          rw [Machine.bind_apply] at read
          cases others : later.mapM (again .form context) between with
          | ok rest ended =>
              rw [others] at read
              cases read
              rw [List.length_cons, List.length_cons, ih others]
          | error stop ended =>
              rw [others] at read
              cases read
      | error stop between =>
          rw [first] at read
          cases read

end Form

namespace Machine

open Form

theorem loadProgram_ok {perform : Perform} {fuel : Nat} {values : List Value} {world after : World}
    (loaded : loadProgram perform fuel values world = .ok () after) :
    ∃ forms read, readProgram perform fuel values world = .ok forms read ∧
      after.store = read.store ∧ after.env.function.code.toList = programCode forms := by
  obtain ⟨journal, loads⟩ := loadProgram_apply perform fuel values world
  rw [loaded] at loads
  cases ran : readProgram perform fuel values world with
  | ok forms read =>
      rw [ran] at loads
      cases loads
      exact ⟨forms, read, rfl, rfl, rfl⟩
  | error stop read =>
      rw [ran] at loads
      cases loads

/-- The code of a program, and of every function inside of it: jumps stay in the code, no way out of a
loop is left in it, and all ways to a place come to it with one height, from nothing at the entry to
one value at the end, or to nothing if the program is empty. -/
theorem loadProgram_wellFormed (host : Host) (keeps : host.KeepsFunctions) (fuel depth : Nat)
    (values : List Value) (world after : World)
    (loaded : loadProgram (perform host fuel) depth values world = .ok () after) :
    Code.WellFormed after.env.function.code.toList ⟨if values.isEmpty then 0 else 1, 0⟩ ∧
      ∀ ref, Code.Holds after.store after.env.function.code.toList ref →
        ∃ name parameters rest code,
          after.store.functions[ref]? = some ⟨name, .compiled parameters rest code []⟩ ∧
            Code.WellFormed code.toList ⟨1, 0⟩ := by
  obtain ⟨forms, read, ran, store, code⟩ := loadProgram_ok loaded
  obtain ⟨tame, known⟩ := produces_program after.store depth values
  have closed : allEnclosed false forms = true := tame.held ran
  have made : AllMadeIn after.store forms :=
    known _ (serves_functions (adds_perform keeps fuel)) world forms read ran
      ⟨[], by rw [List.append_nil, store]⟩
  have size : forms.isEmpty = values.isEmpty := by
    rw [Bool.eq_iff_iff, List.isEmpty_iff_length_eq_zero, List.isEmpty_iff_length_eq_zero,
      readAll_length ran]
  rw [code]
  constructor
  · rw [← size]
    exact Code.wellFormed_of_laid (programCode_laid closed)
  · intro ref inside
    refine (prototype_of_holds (fun inner closure => ?_) inside).wellFormed
    exact made inner (programCode_closures forms closure)

/-- `(fn [] (while true (break)))`, as values. -/
def loopMaker : Value :=
  .pair 0 (.symbol ⟨"fn", 0, false⟩) (.pair 1 .nil (.pair 2
    (.pair 3 (.symbol ⟨"while", 1, false⟩) (.pair 4 (.bool true) (.pair 5
      (.pair 6 (.symbol ⟨"break", 2, false⟩) .nil) .nil))) .nil))

theorem loadProgram_wellFormed_closure :
    ∃ after, loadProgram (perform .none 5) 5 [loopMaker] ⟨default, .empty, .fresh, .empty⟩ =
        .ok () after ∧
      Code.Holds after.store after.env.function.code.toList 0 ∧
      Code.WellFormed after.env.function.code.toList ⟨1, 0⟩ ∧
      ∃ name parameters rest code,
        after.store.functions[0]? = some ⟨name, .compiled parameters rest code []⟩ ∧
          Code.WellFormed code.toList ⟨1, 0⟩ := by
  have loaded : loadProgram (perform .none 5) 5 [loopMaker] ⟨default, .empty, .fresh, .empty⟩ =
      .ok () _ := rfl
  obtain ⟨program, inner⟩ :=
    loadProgram_wellFormed .none Host.none_keepsFunctions 5 5 [loopMaker] _ _ loaded
  refine ⟨_, loaded, ?_, program, inner 0 ?_⟩ <;> exact .here (List.mem_singleton.mpr rfl)

end Machine

end StackLisp
