import StackLisp.Proofs.Meaning.Straight

/-!
Calls: operands are left in order for the instruction that calls, a native function answers in one
step, and a compiled one comes back behind the call with the value of its block.
-/

namespace StackLisp.Machine

open Code Form

variable {host : Host} {perform : Perform} {site : Site} {memory given between after : Memory}
  {around : Option Around} {place : Place} {start : Nat} {data : List Value}
  {calls : List CallFrame} {outcome : Outcome} {way : Interruption} {value : Value} {store : Store}

theorem forms_length (expressions : List Expression) :
    (Expression.forms expressions).length = expressions.length := by
  induction expressions with
  | nil => rfl
  | cons first later ih => exact congrArg (· + 1) ih

theorem operands_count {expressions : List Expression} {values : List Value}
    (evaluates : Evaluates host perform site memory (.operands expressions) (.values values) after) :
    values.length = expressions.length := by
  induction expressions generalizing memory values with
  | nil =>
      cases evaluates with
      | noOperand => rfl
  | cons first later ih =>
      cases evaluates with
      | operand _ rest => exact congrArg (· + 1) (ih rest)

section Named

variable {symbol : Symbol} {arguments : List Expression} {values : List Value}

theorem call_code (place : Place) (symbol : Symbol) (arguments : List Expression) :
    Task.code place (.expression (.call symbol arguments)) =
      Task.code place (.operands arguments) ++ [.call symbol arguments.length] := by
  rw [Task.code, Expression.form, Form.code, forms_length]
  rfl

theorem placed_call
    (lies : Placed site around start (Task.code place (.expression (.call symbol arguments)))) :
    Placed site around start (Task.code place (.operands arguments)) ∧
      site.function.code[start + (Task.code place (.operands arguments)).length]? =
        some (.call symbol arguments.length) ∧
      start + (Task.code place (.expression (.call symbol arguments))).length =
        start + (Task.code place (.operands arguments)).length + 1 := by
  rw [call_code] at lies ⊢
  obtain ⟨operandsLie, call, _⟩ := lies_append.mp lies
  exact ⟨operandsLie, call, by rw [List.length_append, Nat.add_assoc]; rfl⟩

theorem delivers_callInterrupted
    (operands : CodeDelivers host perform site memory (.operands arguments) (.interrupted way)
      after) :
    CodeDelivers host perform site memory (.expression (.call symbol arguments)) (.interrupted way)
      after := by
  intro around place start data calls lies stands
  exact (operands (placed_call lies).1 stands).interrupted

variable (operands : CodeDelivers host perform site memory (.operands arguments) (.values values)
  given)

include operands

theorem delivers_call {ref : FunctionRef} (counted : values.length = arguments.length)
    (looked : given.store.lookup site.scopes site.function.captures symbol =
      (.ok (.function ref), store))
    (called : CallDelivers host perform site (given.withStore store) (store.function ref) values
      outcome after) :
    CodeDelivers host perform site memory (.expression (.call symbol arguments)) outcome after := by
  intro around place start data calls lies stands
  obtain ⟨operandsLie, call, finish⟩ := placed_call lies
  rw [← counted] at call
  rw [finish]
  have ready : Reaches host perform ⟨site, memory, start, data, calls⟩
      ⟨site, given, start + (Task.code place (.operands arguments)).length, values.reverse ++ data,
        calls⟩ := operands operandsLie stands
  refine Delivers.behind (called around stands.depth stands.base ?_ ?_) ready beside_refl
  · exact fun _ leads => reaches_call call looked leads
  · exact fun _ _ breaks => fails_call call looked breaks

theorem delivers_callUnbound {cause : Error}
    (looked : given.store.lookup site.scopes site.function.captures symbol = (.error cause, store)) :
    CodeDelivers host perform site memory (.expression (.call symbol arguments)) (.failure cause)
      (given.withStore store) := by
  intro around place start data calls lies stands
  obtain ⟨operandsLie, call, _⟩ := placed_call lies
  exact Reaches.fails (operands operandsLie stands) (fails_callUnbound call looked)

theorem delivers_callOther {other : Value}
    (looked : given.store.lookup site.scopes site.function.captures symbol = (.ok other, store))
    (noFunction : ∀ ref, other ≠ .function ref) :
    CodeDelivers host perform site memory (.expression (.call symbol arguments))
      (.failure (.type (.namedNotFunction symbol.name (store.kindOf other))))
      (given.withStore store) := by
  intro around place start data calls lies stands
  obtain ⟨operandsLie, call, _⟩ := placed_call lies
  exact Reaches.fails (operands operandsLie stands) (fails_callOther call looked noFunction)

end Named

section Dispatched

variable {callee : Expression} {arguments : List Expression} {values : List Value}

theorem dispatch_code (place : Place) (callee : Expression) (arguments : List Expression) :
    Task.code place (.expression (.dispatch callee arguments)) =
      Code.followedBy (callee.form.code place)
        (Task.code place.behindOperand (.operands arguments)) ++ [.dispatch arguments.length] := by
  rw [Task.code, Expression.form, Form.code, forms_length]
  rfl

theorem placed_dispatch
    (lies : Placed site around start (Task.code place (.expression (.dispatch callee arguments)))) :
    Placed site around start (callee.form.code place) ∧
      Placed site around (start + (callee.form.code place).length)
        (Task.code place.behindOperand (.operands arguments)) ∧
      site.function.code[start + (callee.form.code place).length +
        (Task.code place.behindOperand (.operands arguments)).length]? =
          some (.dispatch arguments.length) ∧
      start + (Task.code place (.expression (.dispatch callee arguments))).length =
        start + (callee.form.code place).length +
          (Task.code place.behindOperand (.operands arguments)).length + 1 := by
  rw [dispatch_code] at lies ⊢
  rw [Placed, lies_append, lies_followedBy, followedBy_length, ← Nat.add_assoc] at lies
  obtain ⟨⟨calleeLies, operandsLie⟩, dispatch, _⟩ := lies
  refine ⟨calleeLies, operandsLie, dispatch, ?_⟩
  rw [List.length_append, followedBy_length, ← Nat.add_assoc, ← Nat.add_assoc]
  rfl

variable (evaluated : CodeDelivers host perform site memory (.expression callee) (.values [value])
  between)

include evaluated

theorem delivers_dispatchInterrupted
    (operands : CodeDelivers host perform site between (.operands arguments) (.interrupted way)
      after) :
    CodeDelivers host perform site memory (.expression (.dispatch callee arguments))
      (.interrupted way) after := by
  intro around place start data calls lies stands
  obtain ⟨calleeLies, operandsLie, _⟩ := placed_dispatch lies
  have inner := operands operandsLie (stands.behindOperand value)
  exact (inner.behind (evaluated.reaches calleeLies stands) beside_refl).interrupted

variable (operands : CodeDelivers host perform site between (.operands arguments) (.values values)
  given) (counted : values.length = arguments.length)

include operands counted

theorem delivers_dispatch {ref : FunctionRef} (isFunction : value = .function ref)
    (called : CallDelivers host perform site given (given.store.function ref) values outcome after) :
    CodeDelivers host perform site memory (.expression (.dispatch callee arguments)) outcome
      after := by
  intro around place start data calls lies stands
  obtain ⟨calleeLies, operandsLie, dispatch, finish⟩ := placed_dispatch lies
  rw [← counted] at dispatch
  rw [finish]
  have ready := (evaluated.reaches calleeLies stands).trans
    (operands operandsLie (stands.behindOperand value))
  rw [isFunction] at ready
  refine Delivers.behind (called around stands.depth stands.base ?_ ?_) ready beside_refl
  · exact fun _ leads => reaches_dispatch dispatch leads
  · exact fun _ _ breaks => fails_dispatch dispatch breaks

theorem delivers_dispatchOther (noFunction : ∀ ref, value ≠ .function ref) :
    CodeDelivers host perform site memory (.expression (.dispatch callee arguments))
      (.failure (.type (.notCallable (given.store.kindOf value) (given.store.text value)))) given := by
  intro around place start data calls lies stands
  obtain ⟨calleeLies, operandsLie, dispatch, _⟩ := placed_dispatch lies
  rw [← counted] at dispatch
  have ready := (evaluated.reaches calleeLies stands).trans
    (operands operandsLie (stands.behindOperand value))
  exact ready.fails (fails_dispatchOther dispatch noFunction)

end Dispatched

/-! What is called. -/

section Called

variable {function : Function} {arguments : List Value}

section Native

variable {key : NativeKey} {arity : Arity} {builder : Bool}
  (made : function.body = .native key arity builder)

include made

theorem calls_argCount {cause : Error}
    (refused : arity.check function.name arguments.length = .error cause) :
    CallDelivers host perform site memory function arguments (.failure cause)
      (memory.observed site.config (.called function.name arguments) arguments) := by
  intro around start pc data calls _ _ _ fails
  exact fails _ _ (breaks_argCount made refused)

theorem calls_native (accepted : arity.check function.name arguments.length = .ok ())
    (gives : Gives site (memory.observed site.config (.called function.name arguments) arguments)
      (callNative host perform function.name key arguments) value after) :
    CallDelivers host perform site memory function arguments (.values [value])
      (after.observed site.config (.returned function.name value) [value]) := by
  intro around start pc data calls _ _ leads _
  exact leads _ (leads_native made accepted gives)

theorem calls_nativeStops {stop : Stop}
    (accepted : arity.check function.name arguments.length = .ok ())
    (halts : Halts site (memory.observed site.config (.called function.name arguments) arguments)
      (callNative host perform function.name key arguments) stop after) :
    CallDelivers host perform site memory function arguments (.interrupted (.stops stop)) after := by
  intro around start pc data calls _ _ _ fails
  exact fails _ _ (breaks_native made accepted halts)

end Native

section Compiled

variable {parameters : List Parameter} {rest : Option Symbol} {captures : List Capture}
  {ref : ScopeRef} {code : Array Instr}

theorem calls_tooDeep (made : function.body = .compiled parameters rest code captures)
    (deep : site.config.maxCallDepth ≤ site.depth) :
    CallDelivers host perform site memory function arguments
      (.failure (.runtime (.callDepth site.config.maxCallDepth function.name)))
      (memory.observed site.config (.called function.name arguments) arguments) := by
  intro around start pc data calls _ _ _ fails
  exact fails _ _ (breaks_tooDeep made deep)

theorem calls_refused {cause : Error}
    (made : function.body = .compiled parameters rest code captures)
    (room : site.depth < site.config.maxCallDepth)
    (opened : (memory.observed site.config (.called function.name arguments)
      arguments).store.callScope function.name parameters rest arguments = (.error cause, store)) :
    CallDelivers host perform site memory function arguments (.failure cause)
      ((memory.observed site.config (.called function.name arguments) arguments).withStore store) := by
  intro around start pc data calls _ _ _ fails
  exact fails _ _ (breaks_compiled made room opened)

variable {contents : List Expression}
  (made : function.body = .compiled parameters rest
    (functionCode (Expression.block contents).form).toArray captures)
  (room : site.depth < site.config.maxCallDepth)
  (opened : (memory.observed site.config (.called function.name arguments)
    arguments).store.callScope function.name parameters rest arguments = (.ok ref, store))

include made in
theorem placed_body (site : Site) (ref : ScopeRef) :
    Placed (site.called function ref) none 0 (Task.code .start (.expression (.block contents))) ∧
      function.code[0 + (Task.code .start (.expression (.block contents))).length]? = some .ret := by
  have whole : function.code.toList =
      Task.code .start (.expression (.block contents)) ++ [.ret] := by
    rw [Function.code, made]
    rfl
  refine ⟨?_, ?_⟩
  · exact @lies_toList _ [] _ _ whole
  · rw [← Array.getElem?_toList, whole, Nat.zero_add, List.getElem?_concat_length]

include made room opened

theorem calls_returns
    (body : CodeDelivers host perform (site.called function ref)
      ((memory.observed site.config (.called function.name arguments) arguments).withStore store)
      (.expression (.block contents)) (.values [value]) after) :
    CallDelivers host perform site memory function arguments (.values [value])
      (after.observed site.config (.returned function.name value) [value]) := by
  intro around start pc data calls depth base leads _
  have entered := leads _ (leads_compiled made room opened)
  obtain ⟨bodyLies, ret⟩ := placed_body made site ref
  let frame : CallFrame := ⟨site.function, pc + 1, site.scopes.length, function.name⟩
  have inside : Stands .start none (site.called function ref) data (frame :: calls) :=
    stands_called depth base function ref frame
  exact (entered.trans (body.reaches bodyLies inside)).trans (reaches_ret ret base depth)

theorem calls_stops {stop : Stop}
    (body : CodeDelivers host perform (site.called function ref)
      ((memory.observed site.config (.called function.name arguments) arguments).withStore store)
      (.expression (.block contents)) (.interrupted (.stops stop)) after) :
    CallDelivers host perform site memory function arguments (.interrupted (.stops stop)) after := by
  intro around start pc data calls depth base leads _
  have entered := leads _ (leads_compiled made room opened)
  obtain ⟨bodyLies, _⟩ := placed_body made site ref
  let frame : CallFrame := ⟨site.function, pc + 1, site.scopes.length, function.name⟩
  have inside : Stands .start none (site.called function ref) data (frame :: calls) :=
    stands_called depth base function ref frame
  exact entered.fails (body bodyLies inside)

end Compiled

end Called

end StackLisp.Machine
