import StackLisp.Form.Special
import StackLisp.Machine.Arguments
import StackLisp.Native.Field
import StackLisp.Native.Number
import StackLisp.Store.Binding

/-!
Faults: the errors of a machine whose stacks are too short for its code. What is asked of the store,
and what is done to it, may fail in many ways, but never with a fault.
-/

namespace StackLisp

/-- A stack is shorter than the code that is executed takes for granted. -/
def Error.isFault : Error → Bool
  | .stackUnderflow => true
  | .runtime .scopesExhausted => true
  | _ => false

def Harmless {α : Type} (result : Except Error α) : Prop :=
  ∀ cause, result = .error cause → cause.isFault = false

section Results

variable {α β : Type}

theorem harmless_ok (value : α) : Harmless (.ok value) := by
  intro cause failed
  cases failed

theorem harmless_error {cause : Error} (spared : cause.isFault = false) :
    Harmless (.error cause : Except Error α) := by
  intro other failed
  cases failed
  exact spared

theorem harmless_map {result : Except Error α} (change : α → β) (spared : Harmless result) :
    Harmless (result.map change) := by
  cases result with
  | ok value => exact harmless_ok _
  | error cause => exact harmless_error (spared cause rfl)

theorem harmless_bind {result : Except Error α} {later : α → Except Error β}
    (spared : Harmless result) (laterSpared : ∀ value, Harmless (later value)) :
    Harmless (result >>= later) := by
  cases result with
  | ok value => exact laterSpared value
  | error cause => exact harmless_error (spared cause rfl)

end Results

/-! Numbers. -/

theorem wordResult_harmless {α : Type} (native : String) (wrap : α → Value) (word : Option α) :
    Harmless (wordResult native wrap word) := by
  cases word with
  | none => exact harmless_error rfl
  | some value => exact harmless_ok _

theorem calculate_harmless (store : Store) (native : String) (op : NumberOp)
    (left right : Value) : Harmless (calculate store native op left right) := by
  unfold calculate
  split
  · exact wordResult_harmless native .int _
  · exact wordResult_harmless native .uint _
  · exact harmless_ok _
  · exact harmless_ok _
  · exact harmless_ok _
  · exact harmless_error rfl

theorem calculateOn_harmless (store : Store) (native : String) (op : NumberOp) (result : Value)
    (arguments : List Value) : Harmless (calculateOn store native op result arguments) := by
  induction arguments generalizing result with
  | nil => exact harmless_ok _
  | cons argument later ih =>
      exact harmless_bind (calculate_harmless store native op result argument) ih

theorem calculateAll_harmless (store : Store) (native : String) (op : NumberOp) (neutral : Value)
    (arguments : List Value) : Harmless (calculateAll store native op neutral arguments) := by
  unfold calculateAll
  split
  · exact harmless_ok _
  · split
    · exact calculateOn_harmless store native op _ _
    · exact harmless_error rfl

theorem floatPower_harmless (store : Store) (native : String) (base exponent : Value) :
    Harmless (match base.toFloat?, exponent.toFloat? with
      | some b, some e => (.ok (.float (b.pow e)) : Except Error Value)
      | some _, none => .error (notNumber store native "numbers" exponent)
      | none, _ => .error (notNumber store native "numbers" base)) := by
  split
  · exact harmless_ok _
  · exact harmless_error rfl
  · exact harmless_error rfl

theorem power_harmless (store : Store) (native : String) (base exponent : Value) :
    Harmless (power store native base exponent) := by
  unfold power
  dsimp only
  split
  next b e =>
    split
    · exact wordResult_harmless native .int _
    · exact floatPower_harmless store native (.int b) (.int e)
  · exact floatPower_harmless store native base exponent

theorem order_harmless (store : Store) (native : String) (left right : Value) :
    Harmless (order store native left right) := by
  unfold order
  split
  · exact harmless_ok _
  · exact harmless_ok _
  · exact harmless_ok _
  · exact harmless_ok _
  · split
    · split
      · exact harmless_ok _
      · exact harmless_error rfl
    · exact harmless_error rfl

theorem compareBy_harmless (store : Store) (native : String) (holds : Ordering → Bool)
    (left right : Value) : Harmless (compareBy store native holds left right) :=
  harmless_map _ (order_harmless store native left right)

theorem arity_harmless (arity : Arity) (function : String) (got : Nat) :
    Harmless (arity.check function got) := by
  unfold Arity.check
  split
  · exact harmless_ok _
  · exact harmless_error rfl

/-! Sequences and records. -/

namespace Store

variable (store : Store)

theorem listItems_harmless (value : Value) : Harmless (store.listItems value) := by
  unfold listItems
  split
  · exact harmless_ok _
  · exact harmless_error rfl

theorem sequenceItems_harmless (value : Value) : Harmless (store.sequenceItems value) := by
  unfold sequenceItems
  split
  · exact harmless_ok _
  · exact harmless_ok _
  · exact listItems_harmless store _
  · exact harmless_error rfl

theorem keyOf_harmless (value : Value) : Harmless (store.keyOf value) := by
  unfold keyOf
  split
  · exact harmless_ok _
  · exact harmless_error rfl

theorem getField_harmless (ref : RecordRef) (key : Value) : Harmless (store.getField ref key) :=
  harmless_map _ (keyOf_harmless store key)

theorem setField_harmless (ref : RecordRef) (key value : Value) :
    Harmless (store.setField ref key value).1 := by
  have spared := keyOf_harmless store key
  unfold setField
  split
  · exact harmless_ok _
  next cause failed => exact harmless_error (spared cause failed)

theorem deleteField_harmless (ref : RecordRef) (key : Value) :
    Harmless (store.deleteField ref key).1 := by
  have spared := keyOf_harmless store key
  unfold deleteField
  split
  · exact harmless_ok _
  next cause failed => exact harmless_error (spared cause failed)

theorem fillFields_harmless (fields : OrderedMap Key Value) (arguments : List Value) :
    Harmless (Native.fillFields store fields arguments) := by
  fun_induction Native.fillFields with
  | case1 _ _ _ _ _ _ ih => exact ih
  | case2 _ key _ _ cause failed => exact harmless_error (keyOf_harmless store key cause failed)
  | case3 => exact harmless_ok _

/-! Bindings and paths. -/

theorem checkRebind_harmless (symbol : Symbol) (old new : Value) :
    Harmless (store.checkRebind symbol old new) := by
  unfold checkRebind
  split
  · split
    · exact harmless_ok _
    · exact harmless_error rfl
  · exact harmless_ok _

theorem bind_harmless (ref : ScopeRef) (symbol : Symbol) (value : Value) :
    Harmless (store.bind ref symbol value).1 := by
  have spared : Harmless (store.checkBind ref symbol value) := by
    unfold checkBind
    split
    · exact checkRebind_harmless store symbol _ value
    · exact harmless_ok _
  unfold bind
  split
  · exact harmless_ok _
  next cause failed => exact harmless_error (spared cause failed)

theorem update_harmless (ref : ScopeRef) (symbol : Symbol) (value : Value) :
    Harmless (store.update ref symbol value).1 := by
  have spared : Harmless (store.checkUpdate ref symbol value) := by
    unfold checkUpdate
    split
    · exact checkRebind_harmless store symbol _ value
    · exact harmless_error rfl
  unfold update
  split
  · exact harmless_ok _
  next cause failed => exact harmless_error (spared cause failed)

theorem lookupPlain_harmless (scopes : List ScopeRef) (captures : List Capture)
    (symbol : Symbol) : Harmless (store.lookupPlain scopes captures symbol) := by
  unfold lookupPlain
  split
  · exact harmless_ok _
  · exact harmless_error rfl

theorem assignPlain_harmless (scopes : List ScopeRef) (captures : List Capture)
    (symbol : Symbol) (value : Value) :
    Harmless (store.assignPlain scopes captures symbol value).1 := by
  unfold assignPlain
  split
  · exact update_harmless store _ symbol value
  · exact harmless_error rfl

theorem stepInto_harmless (path field : String) (value : Value) :
    Harmless (store.stepInto path field value).1 := by
  unfold stepInto
  split
  next ref =>
    dsimp only
    split
    · exact harmless_ok _
    · exact harmless_error rfl
    next cause failed => exact harmless_error (getField_harmless _ ref _ cause failed)
  · exact harmless_error rfl

theorem follow_harmless (path : String) (value : Value) (fields : List String) :
    Harmless (store.follow path value fields).1 := by
  induction fields generalizing store value with
  | nil => exact harmless_ok _
  | cons field later ih =>
      have spared := stepInto_harmless store path field value
      unfold follow
      split
      next found next _ => exact ih next found
      next cause next failed =>
        rw [failed] at spared
        exact spared

theorem lookupPath_harmless (scopes : List ScopeRef) (captures : List Capture) (path : String)
    (parts : List String) : Harmless (store.lookupPath scopes captures path parts).1 := by
  unfold lookupPath
  split
  · exact harmless_error rfl
  · dsimp only
    split
    · exact follow_harmless _ path _ _
    next cause failed => exact harmless_error (lookupPlain_harmless _ scopes captures _ cause failed)

theorem lookup_harmless (scopes : List ScopeRef) (captures : List Capture) (symbol : Symbol) :
    Harmless (store.lookup scopes captures symbol).1 := by
  unfold lookup
  split
  · exact lookupPath_harmless store scopes captures _ _
  · exact lookupPlain_harmless store scopes captures symbol

theorem assignPath_harmless (scopes : List ScopeRef) (captures : List Capture) (path : String)
    (parts : List String) (value : Value) :
    Harmless (store.assignPath scopes captures path parts value).1 := by
  unfold assignPath
  split
  · exact harmless_error rfl
  · exact assignPlain_harmless _ scopes captures _ value
  next last before _ _ =>
    have spared := lookupPath_harmless store scopes captures path before.reverse
    split
    next cause next failed =>
      rw [failed] at spared
      exact harmless_error (spared cause rfl)
    · exact setField_harmless _ _ _ value
    · exact harmless_error rfl

theorem assign_harmless (scopes : List ScopeRef) (captures : List Capture) (symbol : Symbol)
    (value : Value) : Harmless (store.assign scopes captures symbol value).1 := by
  unfold assign
  split
  · exact assignPath_harmless store scopes captures _ _ value
  · exact assignPlain_harmless store scopes captures symbol value

end Store

/-! Arguments and parameters. -/

theorem fillNamed_harmless (function : String) (parameters : List Parameter)
    (arguments : List Value) (slots : Slots) :
    Harmless (fillNamed function parameters arguments slots) := by
  fun_induction fillNamed with
  | case1 => exact harmless_ok _
  | case2 _ _ _ _ ih => exact ih
  | case3 => exact harmless_error rfl
  | case4 => exact harmless_error rfl
  | case5 _ _ _ _ _ _ _ _ _ ih => exact ih
  | case6 => exact harmless_error rfl

theorem missing_harmless (function : String) (parameters : List Parameter) (rest : Option Symbol)
    (named : Bool) (slots : Slots) :
    Harmless (match firstMissing? parameters slots.filled with
      | none => (pure () : Except Error Unit)
      | some parameter => do
        if !named then (Function.arityOf parameters rest).check function slots.count
        throw (.runtime (.missingArgument function parameter))) := by
  split
  · exact harmless_ok _
  · split
    · exact harmless_bind (arity_harmless _ _ _) fun _ => harmless_error rfl
    · exact harmless_error rfl

theorem checkComplete_harmless (function : String) (parameters : List Parameter)
    (rest : Option Symbol) (named : Bool) (slots : Slots) :
    Harmless (checkComplete function parameters rest named slots) := by
  unfold checkComplete
  dsimp only
  split
  · exact harmless_bind (arity_harmless _ _ _) fun _ =>
      missing_harmless function parameters rest named slots
  · exact missing_harmless function parameters rest named slots

theorem checkKinds_harmless (store : Store) (function : String) (parameters : List Parameter)
    (slots : List (Option Value)) : Harmless (checkKinds store function parameters slots) := by
  fun_induction checkKinds with
  | case1 _ _ _ _ _ _ _ _ ih => exact harmless_map _ ih
  | case2 => exact harmless_error rfl
  | case3 _ _ _ _ _ ih => exact harmless_map _ ih
  | case4 => exact harmless_ok _

theorem bindArguments_harmless (store : Store) (function : String) (parameters : List Parameter)
    (rest : Option Symbol) (arguments : List Value) :
    Harmless (bindArguments store function parameters rest arguments) := by
  have complete (named : Bool) (slots : Slots) : Harmless (do
      checkComplete function parameters rest named slots
      let values ← checkKinds store function parameters slots.filled
      return (⟨values, slots.surplus.reverse⟩ : BoundArguments)) :=
    harmless_bind (checkComplete_harmless function parameters rest named slots) fun _ =>
      harmless_bind (checkKinds_harmless store function parameters _) fun _ => harmless_ok _
  unfold bindArguments
  dsimp only
  split
  · exact harmless_bind (fillNamed_harmless function parameters arguments _) (complete _)
  · exact complete _ _

theorem parameterList_harmless (store : Store) (value : Value) :
    Harmless (parameterList store value) := by
  have compiled {α : Type} (result : Except CompileProblem α) :
      Harmless (result.mapError Error.compile) := by
    cases result with
    | ok _ => exact harmless_ok _
    | error _ => exact harmless_error rfl
  unfold parameterList
  split
  · exact harmless_bind (store.sequenceItems_harmless _) fun _ => compiled _
  · exact harmless_bind (store.sequenceItems_harmless _) fun _ => compiled _
  · exact harmless_bind (store.sequenceItems_harmless _) fun _ => compiled _
  · exact harmless_error rfl

end StackLisp
