import StackLisp.Proofs.Machine.Aligned
import StackLisp.Proofs.Machine.Guarded
import StackLisp.Proofs.Store.Captured

/-!
Lexical scope. A closure keeps the scopes that its maker sees, short of the global one. So what is found
from inside of a call of it, whoever calls it and whatever the scopes hold by then, is what its maker
would find above the global scope, and there at last. That is all that its maker would find, unless the
maker has left the scope of its own call; and no code does so that comes of forms.
-/

namespace StackLisp

def Function.Compiled (function : Function) : Prop :=
  ∃ parameters rest code captures, function.body = .compiled parameters rest code captures

instance : DecidablePred Function.Compiled := fun function =>
  match body : function.body with
  | .compiled parameters rest code captures => isTrue ⟨parameters, rest, code, captures, body⟩
  | .native _ _ _ => isFalse fun ⟨_, _, _, _, made⟩ => nomatch body.symm.trans made

def Instr.Calls (caller : World) (callee : FunctionRef) : Instr → Prop
  | .call symbol _ => (Machine.lookup symbol).run' caller = some (.function callee)
  | .dispatch count => caller.env.data.elements[count]? = some (.function callee)
  | _ => False

instance (caller : World) (callee : FunctionRef) (instr : Instr) :
    Decidable (instr.Calls caller callee) :=
  match instr with
  | .call symbol _ => inferInstanceAs
    (Decidable ((Machine.lookup symbol).run' caller = some (.function callee)))
  | .dispatch count => inferInstanceAs
    (Decidable (caller.env.data.elements[count]? = some (.function callee)))
  | .push _ | .pop | .dup | .get _ | .put _ | .set _ | .jump _ | .branch _ _ | .ret | .closure _
  | .openScope | .closeScope | .leave _ => isFalse id

/-- A state inside of the call that has been entered: on the scope of the call stand those that the
callee has opened since. -/
structure World.Within (entered : World) (own : List ScopeRef) (inside : World) : Prop where
  develops : entered.store.Develops .all inside.store
  function : inside.env.function = entered.env.function
  scopes : inside.env.scopes.elements = own ++ entered.env.scopes.elements

theorem World.within_openScope (host : Host) (perform : Perform) (entered : World) :
    entered.Within [entered.store.scopes.size]
      (Machine.lastState (Machine.execute host perform .openScope) entered) :=
  ⟨entered.store.develops_newScope _, rfl, rfl⟩

/-- A call has led into a function: on the scopes of the caller stands that of the call. -/
structure World.Enters (caller : World) (function : Function) (entered : World) : Prop where
  develops : caller.store.Develops .all entered.store
  function : entered.env.function = function
  scopes : ∃ boundary, entered.env.scopes.elements = boundary :: caller.env.scopes.elements ∧
    entered.store.Opened true 0 boundary

namespace Store

variable {store later : Store} {writes : Writes}

theorem Change.lasts (change : store.Change writes later) : store.Lasts later := by
  cases change with
  | made function => exact store.newFunction_lasts function
  | opened scope => exact ⟨List.prefix_rfl, by simp [kinds, newScope]⟩
  | @wrote ref symbol value _ => exact (store.define_keeps ref symbol value).ages.toLasts
  | registered function => exact (Interpreter.addFunction_ages store function).toLasts
  | expanding id ref => exact (store.addExpander_keeps id ref).ages.toLasts
  | _ => exact ⟨List.prefix_rfl, List.prefix_rfl⟩

theorem Develops.lasts (develops : store.Develops writes later) : store.Lasts later := by
  induction develops with
  | refl => exact .refl store
  | snoc _ change ih => exact ih.trans change.lasts

theorem Lasts.function_eq (lasts : store.Lasts later) {ref : FunctionRef}
    (known : ref < store.functions.size) : later.function ref = store.function ref := by
  obtain ⟨added, functions⟩ := lasts.functions
  rw [Store.function, Store.function, Array.getD_eq_getD_getElem?, Array.getD_eq_getD_getElem?,
    ← Array.getElem?_toList, ← Array.getElem?_toList, ← functions,
    List.getElem?_append_left (by simpa using known)]

theorem Lasts.functions_le (lasts : store.Lasts later) :
    store.functions.size ≤ later.functions.size := by
  simpa using lasts.functions.length_le

theorem newFunction_function (store : Store) (function : Function) :
    (store.newFunction function).2.function (store.newFunction function).1 = function := by
  simp [newFunction, Store.function]

theorem bindEach_lasts (store : Store) (ref : ScopeRef) (values : List (Symbol × Value)) :
    store.Lasts (store.bindEach ref values).2 := by
  induction values generalizing store with
  | nil => exact .refl store
  | cons first later ih =>
      obtain ⟨symbol, value⟩ := first
      have bound := (store.bind_keeps ref symbol value).ages.toLasts
      rw [bindEach]
      split
      next next reached =>
        rw [reached] at bound
        exact bound.trans (ih next)
      next cause next reached =>
        rw [reached] at bound
        exact bound

theorem callScope_opened {name : String} {parameters : List Parameter} {rest : Option Symbol}
    {arguments : List Value} {ref : ScopeRef}
    (made : store.callScope name parameters rest arguments = (.ok ref, later)) :
    later.Opened true 0 ref := by
  have opened (base : Store) (values : List (Symbol × Value)) :
      ((base.newScope (.empty name true)).2.bindEach (base.newScope (.empty name true)).1
        values).2.Opened true 0 (base.newScope (.empty name true)).1 := by
    have new : (base.newScope (.empty name true)).2.Opened true 0
        (base.newScope (.empty name true)).1 :=
      ⟨Nat.zero_le _, by simp [newScope], by simp [newScope, scope, Scope.empty]⟩
    exact new.lasts (bindEach_lasts _ _ values)
  unfold callScope at made
  cases bound : bindArguments store name parameters rest arguments with
  | error cause =>
      rw [bound] at made
      cases made
  | ok arranged =>
      rw [bound] at made
      cases rest with
      | none =>
          have isOpen := opened store arranged.values
          dsimp only at made
          split at made
          next reached =>
            rw [reached] at isOpen
            cases made
            exact isOpen
          next => cases made
      | some symbol =>
          have isOpen := opened (store.newList arranged.surplus).2
            (arranged.values ++ [(symbol, (store.newList arranged.surplus).1)])
          dsimp only at made
          split at made
          next reached =>
            rw [reached] at isOpen
            cases made
            exact isOpen
          next => cases made

end Store

theorem Function.closeOver_captures {function : Function} (compiled : function.Compiled)
    (scopes : List ScopeRef) (maker : Function) :
    (function.closeOver scopes maker).Compiled ∧
      (function.closeOver scopes maker).captures = ⟨scopes, maker.name⟩ :: maker.captures := by
  obtain ⟨parameters, rest, code, captures, body⟩ := compiled
  refine ⟨⟨parameters, rest, code, ⟨scopes, maker.name⟩ :: maker.captures, ?_⟩, ?_⟩
  · simp [closeOver, body]
  · simp [closeOver, Function.captures, body]

theorem World.Enters.behind {caller between entered : World} {function : Function}
    (enters : between.Enters function entered)
    (develops : caller.store.Develops .all between.store)
    (scopes : between.env.scopes = caller.env.scopes) : caller.Enters function entered := by
  obtain ⟨boundary, stacked, opened⟩ := enters.scopes
  rw [scopes] at stacked
  exact ⟨develops.trans enters.develops, enters.function, boundary, stacked, opened⟩

namespace Machine

/-! Calls. -/

theorem ended_of_run' {α : Type} {body : Machine α} {world : World} {value : α}
    (ran : body.run' world = some value) : body world = .ok value (lastState body world) := by
  delta EStateM.run' EStateM.run at ran
  rw [lastState]
  cases ended : body world with
  | ok result after =>
      rw [ended] at ran
      cases ran
      rfl
  | error stop after =>
      rw [ended] at ran
      cases ran

theorem develops_steps {host : Host} {hears : Prop} (hosted : host.Acts .all hears) (fuel count : Nat)
    (world : World) :
    world.store.Develops .all ((lastState (step host (perform host fuel)))^[count] world).store := by
  induction count generalizing world with
  | zero => exact .refl
  | succ count ih =>
      have first := behaves_step hosted (behaves_perform hosted fuel) world
      exact first.develops.trans (ih _)

section Calls

variable {host : Host} {perform : Perform} {caller between entered : World} {function : Function}

theorem startCall_enters {parameters : List Parameter} {rest : Option Symbol}
    {arguments : List Value}
    (ran : startCall function parameters rest arguments caller = .ok () entered) :
    caller.Enters function entered := by
  by_cases deep : caller.config.maxCallDepth ≤ caller.env.calls.size
  · rw [startCall_refused deep] at ran
    cases ran
  · cases made : caller.store.callScope function.name parameters rest arguments with
    | mk found store =>
        have develops : caller.store.Develops .all _ :=
          caller.store.develops_callScope function.name parameters rest arguments
        rw [made] at develops
        rw [startCall_apply (Nat.lt_of_not_le deep) made] at ran
        cases found with
        | error cause => cases ran
        | ok ref =>
            cases ran
            exact ⟨develops, rfl, ref, rfl, Store.callScope_opened made⟩

theorem callFunction_enters (compiled : function.Compiled) {arguments : List Value}
    (ran : callFunction host perform function arguments caller = .ok () entered) :
    caller.Enters function entered := by
  obtain ⟨parameters, rest, code, captures, body⟩ := compiled
  obtain ⟨journal, observed⟩ := observe_apply (.called function.name arguments) arguments caller
  rw [callFunction, observeCall, bind_apply, observed] at ran
  simp only [body] at ran
  have started : startCall function parameters rest arguments { caller with journal } =
      .ok () entered := ran
  exact (startCall_enters started).behind .refl rfl

theorem lookup_ends {symbol : Symbol} {value : Value}
    (ran : lookup symbol caller = .ok value between) :
    between.env = caller.env ∧ caller.store.Develops .all between.store := by
  cases looked : caller.store.lookup caller.env.scopes.elements caller.env.function.captures
      symbol with
  | mk found store =>
      have develops : caller.store.Develops .all _ := caller.store.develops_lookup
        caller.env.scopes.elements caller.env.function.captures symbol
      rw [looked] at develops
      rw [lookup_apply looked] at ran
      cases found with
      | error cause => cases ran
      | ok value =>
          cases ran
          exact ⟨rfl, develops⟩

theorem popMany_ends {count : Nat} {values : List Value}
    (ran : popMany count caller = .ok values between) : between = dropped caller count := by
  by_cases enough : count ≤ caller.env.data.elements.length
  · rw [popMany_apply enough] at ran
    cases ran
    rfl
  · have refused : caller.env.data.popMany? count = none := by
      rw [← caller.env.data.size_eq] at enough
      exact if_neg enough
    simp only [popMany, bind_apply, onEnv_apply, refused] at ran
    cases ran

theorem callRef_enters {callee : FunctionRef} {count : Nat}
    (compiled : (caller.store.function callee).Compiled)
    (ran : (do
      let arguments ← popMany count
      let called ← readStore fun store => store.function callee
      callFunction host perform called arguments : Machine Unit) caller = .ok () entered) :
    caller.Enters (caller.store.function callee) entered := by
  rw [bind_apply] at ran
  cases popped : popMany count caller with
  | error stop between =>
      rw [popped] at ran
      cases ran
  | ok arguments between =>
      obtain rfl := popMany_ends popped
      rw [popped] at ran
      have called : callFunction host perform (caller.store.function callee) arguments
          (dropped caller count) = .ok () entered := ran
      exact (callFunction_enters compiled called).behind .refl rfl

theorem execute_enters {callee : FunctionRef} {instr : Instr} (calls : instr.Calls caller callee)
    (known : callee < caller.store.functions.size)
    (compiled : (caller.store.function callee).Compiled)
    (ran : execute host perform instr caller = .ok () entered) :
    caller.Enters (caller.store.function callee) entered := by
  cases instr with
  | call symbol count =>
      rw [execute, bind_apply] at ran
      cases looked : lookup symbol caller with
      | error stop between =>
          rw [looked] at ran
          cases ran
      | ok value between =>
          obtain ⟨env, develops⟩ := lookup_ends looked
          have same := develops.lasts.function_eq known
          delta Instr.Calls EStateM.run' EStateM.run at calls
          dsimp only at calls
          rw [looked] at calls
          obtain rfl : value = .function callee := Option.some.inj calls
          rw [looked] at ran
          rw [← same] at compiled ⊢
          exact (callRef_enters compiled ran).behind develops (congrArg Env.scopes env)
  | dispatch count =>
      obtain ⟨enough, top⟩ := List.getElem?_eq_some_iff.mp calls
      have left : (dropped caller count).env.data.elements =
          .function callee :: caller.env.data.elements.drop (count + 1) := by
        rw [← top]
        exact List.drop_eq_getElem_cons enough
      rw [execute, bind_apply, popMany_apply enough.le] at ran
      dsimp only at ran
      rw [bind_apply, pop_apply left] at ran
      have called : callFunction host perform (caller.store.function callee) _
          (dropped (dropped caller count) 1) = .ok () entered := ran
      exact (callFunction_enters compiled called).behind .refl rfl
  | _ => exact calls.elim

end Calls

theorem execute_closure (host : Host) (perform : Perform) (ref : FunctionRef) (world : World) :
    ∃ after, execute host perform (.closure ref) world = .ok () after ∧
      let made := world.store.newFunction ((world.store.function ref).closeOver
        (world.store.capturable Store.global world.env.scopes.elements) world.env.function)
      after.store = made.2 ∧
        after.env.data.elements = .function made.1 :: world.env.data.elements :=
  ⟨_, rfl, rfl, rfl⟩

end Machine

/-- Inside of any call of the closure, whoever makes it and when, what the call itself does not bind is
found as from the given scopes and captures. -/
def SeesFrom (made : Store) (closure : FunctionRef) (scopes : List ScopeRef)
    (captures : List Capture) : Prop :=
  ∀ (host : Host) (perform : Perform) (caller entered inside : World) (instr : Instr)
    (own : List ScopeRef) (id : Nat),
    made.Develops .all caller.store → instr.Calls caller closure →
    Machine.execute host perform instr caller = .ok () entered → entered.Within own inside →
    (∀ ref ∈ own ++ [Machine.innermostScope entered.env],
      (inside.store.scope ref).lookup id = none) →
    inside.store.findBinding inside.env.scopes.elements inside.env.function.captures id =
      inside.store.findBinding scopes captures id

section Closures

variable {store : Store} {scopes : List ScopeRef} {maker function : Function}
  {host : Host} {perform : Perform} {caller entered : World} {instr : Instr}

theorem enters_closure (compiled : function.Compiled) :
    let made := store.newFunction (function.closeOver (store.capturable Store.global scopes) maker)
    made.2.Develops .all caller.store → instr.Calls caller made.1 →
    Machine.execute host perform instr caller = .ok () entered →
    store.Lasts caller.store ∧
      caller.Enters (function.closeOver (store.capturable Store.global scopes) maker) entered := by
  intro made develops calls executed
  have known : made.1 < made.2.functions.size := by simp [made, Store.newFunction]
  have callee : caller.store.function made.1 =
      function.closeOver (store.capturable Store.global scopes) maker := by
    rw [develops.lasts.function_eq known]
    exact store.newFunction_function _
  have closed := (function.closeOver_captures compiled
    (store.capturable Store.global scopes) maker).1
  rw [← callee] at closed
  refine ⟨(store.newFunction_lasts _).trans develops.lasts, ?_⟩
  rw [← callee]
  exact Machine.execute_enters calls (known.trans_le develops.lasts.functions_le) closed executed

theorem seesFrom_aboveGlobal (compiled : function.Compiled)
    (known : ∀ ref ∈ scopes, ref < store.scopes.size) :
    let made := store.newFunction (function.closeOver (store.capturable Store.global scopes) maker)
    SeesFrom made.2 made.1 (Store.aboveGlobal scopes) maker.captures := by
  intro made host perform caller entered inside instr own id develops calls executed within unbound
  obtain ⟨lasts, enters, running, boundary, stacked, opened⟩ :=
    enters_closure compiled develops calls executed
  have innermost : Machine.innermostScope entered.env = boundary := by
    simp [Machine.innermostScope, Stack.top?, stacked]
  rw [innermost] at unbound
  have isCall := (opened.lasts within.develops.lasts).isCall
  have inner := Store.runningScopes_inside isCall own caller.env.scopes.elements
  have nothing := Store.findAmong_unbound fun ref member => unbound ref (inner.subset member)
  have captured := (function.closeOver_captures compiled
    (store.capturable Store.global scopes) maker).2
  have same : inside.store.runningScopes scopes = store.runningScopes scopes :=
    Store.runningScopes_congr fun ref member =>
      (lasts.trans (enters.trans within.develops).lasts).isCall_eq (known ref member)
  rw [← Store.findBinding_captured same maker.captures maker.name id, within.scopes, stacked,
    within.function, running, captured, Store.findBinding, nothing]
  rfl

theorem Store.Anchored.seesFrom (anchored : store.Anchored scopes maker.captures)
    (compiled : function.Compiled) (known : ∀ ref ∈ scopes, ref < store.scopes.size) :
    let made := store.newFunction (function.closeOver (store.capturable Store.global scopes) maker)
    SeesFrom made.2 made.1 scopes maker.captures := by
  intro made host perform caller entered inside instr own id develops calls executed within unbound
  obtain ⟨lasts, enters, _⟩ := enters_closure compiled develops calls executed
  have same : inside.store.runningScopes scopes = store.runningScopes scopes :=
    runningScopes_congr fun ref member =>
      (lasts.trans (enters.trans within.develops).lasts).isCall_eq (known ref member)
  rw [← anchored.findBinding same id]
  exact seesFrom_aboveGlobal compiled known host perform caller entered inside instr own id develops
    calls executed within unbound

end Closures

/-- Some open scope is the outermost one and the global one, and no other is; and all are in the
store. -/
structure World.Rooted (world : World) : Prop where
  root : ∃ inner, world.env.scopes.elements = inner ++ [Store.global] ∧ Store.global ∉ inner
  known : ∀ ref ∈ world.env.scopes.elements, ref < world.store.scopes.size

theorem World.Rooted.hasGlobal {world : World} (rooted : world.Rooted) :
    Store.global < world.store.scopes.size := by
  obtain ⟨inner, scopes, _⟩ := rooted.root
  exact rooted.known Store.global (by simp [scopes])

/-- The open scopes are in the store, and the global one is seen last. -/
structure World.Scoped (world : World) : Prop where
  known : ∀ ref ∈ world.env.scopes.elements, ref < world.store.scopes.size
  anchored : world.store.Anchored world.env.scopes.elements world.env.function.captures

instance : DecidablePred World.Scoped := fun world =>
  decidable_of_iff
    ((∀ ref ∈ world.env.scopes.elements, ref < world.store.scopes.size) ∧
      (Store.global ∈ world.store.runningScopes world.env.scopes.elements →
        (∀ capture ∈ world.env.function.captures, capture.scopes = []) ∧
          world.store.runningScopes world.env.scopes.elements =
            world.store.capturable Store.global world.env.scopes.elements ++ [Store.global]))
    ⟨fun ⟨known, anchored⟩ => ⟨known, anchored⟩, fun held => ⟨held.known, held.anchored⟩⟩

namespace Machine

/-! States in which the open scopes are rooted. -/

theorem rooted_extended {world after : World} (rooted : world.Rooted) (goesOn : world.Extends after) :
    after.Rooted := by
  have hasGlobal := rooted.hasGlobal
  obtain ⟨⟨inner, scopes, avoids⟩, known⟩ := rooted
  obtain ⟨own, extended, new⟩ := goesOn.scopes
  constructor
  · refine ⟨own ++ inner, by rw [extended, scopes, List.append_assoc], ?_⟩
    rw [List.mem_append]
    rintro (member | member)
    · exact absurd (new _ member).1 (Nat.not_le_of_lt hasGlobal)
    · exact avoids member
  · rw [extended]
    refine List.forall_mem_append.mpr ⟨fun ref member => (new ref member).2, fun ref member => ?_⟩
    exact Nat.lt_of_lt_of_le (known ref member) goesOn.later.lasts.scopes_le

theorem rooted_apart {world : World} (rooted : world.Rooted) (journal : Journal) :
    (apart journal world).Rooted := by
  refine ⟨⟨[], rfl, by simp⟩, fun ref member => ?_⟩
  obtain rfl := List.mem_singleton.mp member
  exact rooted.hasGlobal

def Stage.rooted : Stage where
  holds := fun world => world.Ready ∧ world.Rooted
  opens := fun world => world.Ready ∧ world.Rooted
  ready := fun _ holds => holds.1
  opened := fun _ opens => opens
  extended := fun _ _ holds deepens ready => ⟨ready, rooted_extended holds.2 deepens.extends⟩
  inner := fun _ function holds _ => ⟨ready_inner holds.1 function, holds.2.root, holds.2.known⟩
  apart := fun _ journal holds _ => ⟨ready_apart holds.1 journal, rooted_apart holds.2 journal⟩

section Running

variable {ground : Ground} {start world : World}

/-- A run is in its own function, which is closed over nothing, or inside of a call, whose scopes are
newer than the run. -/
theorem newer_of_under {store : Store} {function : Function} {place : Nat} {data : List Value}
    {scopes : List ScopeRef} {calls : List CallFrame}
    (under : ground.Under store function place data scopes calls) :
    function.captures = [] ∨ ∀ ref ∈ store.runningScopes scopes, ground.since ≤ ref := by
  cases under with
  | own => exact .inl ground.captures
  | called _ _ reaches marked =>
      obtain ⟨own, rfl, _, new⟩ := reaches.opened
      right
      intro ref member
      rcases List.mem_append.mp
        ((Store.runningScopes_inside marked.opened.isCall own _).subset member) with isOwn | isLast
      · exact (new ref isOwn).since
      · obtain rfl := List.mem_singleton.mp isLast
        exact marked.opened.since

theorem Running.lexical (based : Based .rooted ground start) (running : Running ground start world) :
    world.Scoped := by
  have hasGlobal := based.holds.2.hasGlobal
  obtain ⟨⟨inner, scopes, avoids⟩, known⟩ := (running.holds based).2
  refine ⟨known, fun sees => ?_⟩
  obtain ⟨place, pc, under⟩ := running.stands
  rcases newer_of_under under with noCaptures | new
  · refine ⟨by simp [noCaptures], ?_⟩
    have front := world.store.runningScopes_prefix world.env.scopes.elements
    rw [Store.capturable]
    rw [scopes] at front sees ⊢
    rcases List.prefix_concat_iff.mp front with all | some
    · have kept : ∀ ref ∈ inner, (ref != Store.global) = true := by
        intro ref member
        simp only [bne_iff_ne, ne_eq]
        rintro rfl
        exact avoids member
      rw [all, List.takeWhile_append_of_pos kept, List.takeWhile_cons_of_neg (by simp),
        List.append_nil]
    · exact absurd (some.subset sees) avoids
  · have late := new _ sees
    rw [based.since] at late
    exact absurd late (Nat.not_le_of_lt hasGlobal)

theorem scoped_spec (host : Host) (fuel : Nat) :
    RunSpec .rooted (watchedPerform World.Scoped host fuel) (perform host fuel) :=
  watchedPerform_spec (fun _ _ _ based running => running.lexical based) host fuel

end Running

end Machine

namespace Interpreter

open Machine

theorem fresh_rooted (config : Config) : (fresh config).Rooted := by
  refine ⟨⟨[], rfl, by simp⟩, fun ref member => ?_⟩
  obtain rfl := List.mem_singleton.mp member
  rw [fresh_store]
  exact Nat.lt_of_lt_of_le Nat.one_pos (addStandard_ages Standard.all .empty).toLasts.scopes_le

theorem clear_rooted {world : World} (holds : Stage.rooted.holds world) :
    Stage.rooted.holds (lastState clear world) := by
  obtain ⟨ready, ⟨inner, scopes, avoids⟩, known⟩ := holds
  have left : (world.env.scopes.truncate 1).elements = [Store.global] :=
    Stack.elements_truncate_one (by simp [scopes])
  have shape : (lastState clear world).env.scopes.elements = [Store.global] := left
  refine ⟨⟨ready.sound, Nat.le_refl _, ?_⟩, ⟨[], shape, by simp⟩, fun ref member => ?_⟩
  · change 0 < (world.env.scopes.truncate 1).size
    rw [Stack.size_eq, left]
    exact Nat.one_pos
  · rw [shape] at member
    obtain rfl := List.mem_singleton.mp member
    exact known Store.global (by simp [scopes])

theorem Reached.rooted {host : Host} {config : Config} {world : World}
    (reached : Reached host config world) : Stage.rooted.holds world := by
  induction reached with
  | fresh => exact ⟨fresh_ready config, fresh_rooted config⟩
  | evalText fuel text _ ih => exact holds_evalText host fuel text ih
  | apply fuel function arguments _ ih => exact holds_apply host fuel function arguments ih
  | clear _ ih => exact clear_rooted ih

end Interpreter

end StackLisp
