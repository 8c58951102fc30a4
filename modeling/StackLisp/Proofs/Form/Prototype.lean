import StackLisp.Proofs.Code.WellFormed
import StackLisp.Proofs.Form.Layout
import StackLisp.Store

/-!
Functions inside of code. Code makes closures of functions that were made before it, of forms that
stood inside of its own form, and these functions may make closures of further ones.
-/

namespace StackLisp

def Instr.closure? : Instr → Option FunctionRef
  | .closure ref => some ref
  | _ => none

namespace Code

def closures (code : Code) : List FunctionRef := code.filterMap Instr.closure?

theorem mem_closures {code : Code} {ref : FunctionRef} : ref ∈ code.closures ↔ .closure ref ∈ code := by
  rw [closures, List.mem_filterMap]
  constructor
  · rintro ⟨instr, member, found⟩
    cases instr with
    | closure _ =>
        cases found
        exact member
    | _ => cases found
  · intro member
    exact ⟨_, member, rfl⟩

@[simp] theorem closures_nil : closures [] = [] := rfl

@[simp] theorem closures_cons (instr : Instr) (later : Code) :
    closures (instr :: later) = instr.closure?.toList ++ closures later := by
  rw [closures, List.filterMap_cons]
  cases instr.closure? <;> rfl

@[simp] theorem closures_append (first second : Code) :
    closures (first ++ second) = first.closures ++ second.closures :=
  List.filterMap_append

@[simp] theorem closures_relocate (base : Nat) (code : Code) :
    closures (code.map (Instr.relocate base)) = code.closures := by
  have same : Instr.closure? ∘ Instr.relocate base = Instr.closure? := by
    funext instr
    cases instr <;> rfl
  rw [closures, List.filterMap_map, same, closures]

@[simp] theorem closures_closeLoop (exit next : Nat) (code : Code) :
    closures (closeLoop exit next code) = code.closures := by
  rw [closures, closeLoop, List.filterMap_map, closures]
  congr 1
  funext instr
  cases instr with
  | leave exit => cases exit <;> rfl
  | _ => rfl

@[simp] theorem closures_followedBy (first second : Code) :
    (first.followedBy second).closures = first.closures ++ second.closures := by
  simp [followedBy]

@[simp] theorem closures_leave (place : Place) (exit : Exit) :
    (Code.leave place exit).closures = [] := by
  simp [Code.leave, closures, Instr.closure?]

@[simp] theorem closures_choose (test whenTrue whenFalse : Code) :
    (choose test whenTrue whenFalse).closures =
      test.closures ++ (whenTrue.closures ++ whenFalse.closures) := by
  simp [choose, concat, Instr.closure?]

@[simp] theorem closures_settle (stopsOn : Bool) (first second : Code) :
    (settle stopsOn first second).closures = first.closures ++ second.closures := by
  simp [settle, concat, Instr.closure?]

@[simp] theorem closures_loop (test round : Code) (next : Nat) :
    (Code.loop test round next).closures = test.closures ++ round.closures := by
  simp [Code.loop, Instr.closure?]

inductive Holds (store : Store) : Code → FunctionRef → Prop
  | here {code : Code} {ref : FunctionRef} : .closure ref ∈ code → Holds store code ref
  | inside {code : Code} {ref inner : FunctionRef} : .closure ref ∈ code →
    Holds store (store.function ref).code.toList inner → Holds store code inner

end Code

namespace Form

mutual

def functions : Form → List FunctionRef
  | .constant _ | .variable _ | .leave _ => []
  | .function ref => [ref]
  | .call _ arguments => allFunctions arguments
  | .dispatch callee arguments => callee.functions ++ allFunctions arguments
  | .sequence first later => first.functions ++ allFunctions later
  | .define _ value | .assign _ value => value.functions
  | .choose test whenTrue whenFalse =>
    test.functions ++ (whenTrue.functions ++ whenFalse.functions)
  | .settle _ first second => first.functions ++ second.functions
  | .bind _ values body => allFunctions values ++ body.functions
  | .whileLoop test body => test.functions ++ allFunctions body
  | .forLoop start test step body =>
    start.functions ++ (test.functions ++ (allFunctions body ++ step.functions))

def allFunctions : List Form → List FunctionRef
  | [] => []
  | form :: later => form.functions ++ allFunctions later

end

theorem mem_append_of {first second first' second' : List FunctionRef} (inFirst : first ⊆ first')
    (inSecond : second ⊆ second') : first ++ second ⊆ first' ++ second' :=
  List.append_subset.mpr ⟨List.subset_append_of_subset_left _ inFirst,
    List.subset_append_of_subset_right _ inSecond⟩

mutual

theorem code_closures (form : Form) (place : Place) :
    (form.code place).closures ⊆ form.functions := by
  match form with
  | .constant _ | .variable _ | .leave _ => simp [code, Instr.closure?]
  | .function _ => simp [code, functions, Instr.closure?]
  | .call _ arguments =>
      simpa [code, functions, Instr.closure?] using operandCode_closures arguments place
  | .dispatch callee arguments =>
      have parts := mem_append_of (code_closures callee place)
        (operandCode_closures arguments place.behindOperand)
      simpa [code, functions, Instr.closure?] using parts
  | .sequence first later =>
      have parts := mem_append_of (code_closures first place) (laterCode_closures later place)
      simpa [code, functions] using parts
  | .define _ value | .assign _ value =>
      simpa [code, functions, Instr.closure?] using code_closures value place
  | .choose test whenTrue whenFalse =>
      have parts := mem_append_of (code_closures test place)
        (mem_append_of (code_closures whenTrue place) (code_closures whenFalse place))
      simpa [code, functions] using parts
  | .settle _ first second =>
      have parts := mem_append_of (code_closures first place) (code_closures second place)
      simpa [code, functions] using parts
  | .bind symbols values body =>
      have parts := mem_append_of (bindingCode_closures symbols values place.inScope)
        (code_closures body place.inScope)
      simpa [code, functions, Code.concat, Instr.closure?] using parts
  | .whileLoop test body =>
      have parts := mem_append_of (code_closures test place) (roundCode_closures body place.inLoop)
      simpa [code, functions, Instr.closure?] using parts
  | .forLoop start test step body =>
      have round := mem_append_of (roundCode_closures body place.inScope.inLoop)
        (code_closures step place.inScope.inLoop)
      have parts := mem_append_of (code_closures start place.inScope)
        (mem_append_of (code_closures test place.inScope) round)
      simpa [code, functions, Code.concat, Instr.closure?] using parts

theorem operandCode_closures (forms : List Form) (place : Place) :
    (operandCode place forms).closures ⊆ allFunctions forms := by
  match forms with
  | [] => simp [operandCode]
  | form :: later =>
      have parts := mem_append_of (code_closures form place)
        (operandCode_closures later place.behindOperand)
      simpa [operandCode, allFunctions] using parts

theorem laterCode_closures (forms : List Form) (place : Place) :
    (laterCode place forms).closures ⊆ allFunctions forms := by
  match forms with
  | [] => simp [laterCode]
  | form :: later =>
      have parts := mem_append_of (code_closures form place) (laterCode_closures later place)
      simpa [laterCode, allFunctions, Code.concat, Instr.closure?] using parts

theorem bindingCode_closures (symbols : List Symbol) (forms : List Form) (place : Place) :
    (bindingCode place symbols forms).closures ⊆ allFunctions forms := by
  match symbols, forms with
  | [], _ =>
      rw [bindingCode]
      · simp
      · simp
  | _ :: _, [] => simp [bindingCode]
  | _ :: symbols, form :: later =>
      have parts := mem_append_of (code_closures form place) (bindingCode_closures symbols later place)
      simpa [bindingCode, allFunctions, Instr.closure?] using parts

theorem roundCode_closures (forms : List Form) (place : Place) :
    (roundCode place forms).closures ⊆ allFunctions forms := by
  match forms with
  | [] => simp [roundCode]
  | form :: later =>
      have parts := mem_append_of (code_closures form place) (roundCode_closures later place)
      simpa [roundCode, allFunctions, Instr.closure?] using parts

end

theorem programCode_closures (forms : List Form) :
    (programCode forms).closures ⊆ allFunctions forms := by
  match forms with
  | [] => simp [programCode]
  | first :: later =>
      have parts := mem_append_of (code_closures first .start) (laterCode_closures later .start)
      simpa [programCode, allFunctions] using parts

theorem functionCode_closures (body : Form) : (functionCode body).closures ⊆ body.functions := by
  simpa [functionCode, Instr.closure?] using code_closures body .start

/-- A function that was made of a form, and so were the functions that its code makes closures of. -/
inductive Prototype (store : Store) : FunctionRef → Prop
  | made {ref : FunctionRef} {name : String} {parameters : List Parameter} {rest : Option Symbol}
    {body : Form} :
    store.functions[ref]? =
      some ⟨name, .compiled parameters rest (functionCode body).toArray []⟩ →
    body.enclosed false = true → (∀ inner ∈ body.functions, Prototype store inner) →
    Prototype store ref

theorem prototype_of_holds {store : Store} {code : Code} {ref : FunctionRef}
    (closed : ∀ inner ∈ code.closures, Prototype store inner) (holds : code.Holds store ref) :
    Prototype store ref := by
  induction holds with
  | here member => exact closed _ (Code.mem_closures.mpr member)
  | inside member _ ih =>
      refine ih fun inner closure => ?_
      cases closed _ (Code.mem_closures.mpr member) with
      | made found _ inside =>
          rw [Store.function, Array.getD_eq_getD_getElem?, found] at closure
          exact inside inner (functionCode_closures _ closure)

theorem Prototype.wellFormed {store : Store} {ref : FunctionRef} (prototype : Prototype store ref) :
    ∃ name parameters rest code,
      store.functions[ref]? = some ⟨name, .compiled parameters rest code []⟩ ∧
        Code.WellFormed code.toList ⟨1, 0⟩ := by
  cases prototype with
  | made found enclosed _ =>
      refine ⟨_, _, _, _, found, ?_⟩
      exact Code.wellFormed_ret (code_laid _ Place.start_sound enclosed)

end Form

end StackLisp
