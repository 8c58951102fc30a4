import StackLisp.Proofs.Machine.Failure
import StackLisp.Proofs.Machine.Watched

/-!
Calls and their scopes. In whatever state an interpreter is left, and wherever its runs come to, each
call that is under way has a scope of its own on the stack, at the place that its frame tells; and the
global scope is below them all.
-/

namespace StackLisp

/-- The scopes of calls on a stack of scopes: how many scopes there are below each, and its name. -/
def Store.boundaries (store : Store) : List ScopeRef → List (Nat × String)
  | [] => []
  | ref :: outer =>
    if (store.scope ref).isCall then
      (outer.length, (store.scope ref).name) :: store.boundaries outer
    else store.boundaries outer

/-- The global scope is the outermost one, and the scopes of calls are those that the frames of the
calls tell, in their order. -/
structure World.Aligned (world : World) : Prop where
  root : world.env.scopes.elements.getLast? = some Store.global
  calls : world.store.boundaries world.env.scopes.elements =
    world.env.calls.elements.map fun frame => (frame.scopeDepth, frame.callee)

instance : DecidablePred World.Aligned := fun world =>
  decidable_of_iff
    (world.env.scopes.elements.getLast? = some Store.global ∧
      world.store.boundaries world.env.scopes.elements =
        world.env.calls.elements.map fun frame => (frame.scopeDepth, frame.callee))
    ⟨fun ⟨root, calls⟩ => ⟨root, calls⟩, fun aligned => ⟨aligned.root, aligned.calls⟩⟩

structure World.Grounded (world : World) : Prop where
  global : world.store.Opened false Store.global Store.global
  stacked : world.store.Stacked Store.global [Store.global] [] world.env.scopes.elements
    world.env.calls.elements

theorem Store.Stacked.boundaries {store : Store} {since : ScopeRef} {scopes inner : List ScopeRef}
    {calls frames : List CallFrame} (stacked : store.Stacked since scopes calls inner frames)
    (aligned : store.boundaries scopes = calls.map fun frame => (frame.scopeDepth, frame.callee)) :
    store.boundaries inner = frames.map fun frame => (frame.scopeDepth, frame.callee) := by
  induction stacked with
  | here => exact aligned
  | opened isOpen _ ih => simp [Store.boundaries, isOpen.isCall, ih]
  | called boundary _ ih =>
      simp [Store.boundaries, boundary.opened.isCall, boundary.name, boundary.depth, ih]

theorem World.Grounded.aligned {world : World} (grounded : world.Grounded) : world.Aligned := by
  obtain ⟨own, scopes, _⟩ := grounded.stacked.own
  refine ⟨by simp [scopes], grounded.stacked.boundaries ?_⟩
  simp [Store.boundaries, grounded.global.isCall]

theorem World.Grounded.deepens {world after : World} (grounded : world.Grounded)
    (deepens : world.Deepens after) : after.Grounded := by
  obtain ⟨isOpen, stacked⟩ := grounded
  exact ⟨isOpen.lasts deepens.later.lasts,
    (stacked.ages deepens.later.ages).trans deepens.stacked (Nat.zero_le _)⟩

namespace Machine

def Stage.grounded : Stage where
  holds := fun world => world.Ready ∧ world.Grounded
  opens := fun world => world.Ready ∧ world.Grounded
  ready := fun _ holds => holds.1
  opened := fun _ opens => opens
  extended := fun _ _ holds deepens ready => ⟨ready, holds.2.deepens deepens⟩
  inner := fun _ function holds _ => ⟨ready_inner holds.1 function, holds.2.global, holds.2.stacked⟩
  apart := fun _ journal holds _ => ⟨ready_apart holds.1 journal, holds.2.global, .here⟩

theorem Running.aligned {ground : Ground} {start world : World}
    (based : Based .grounded ground start) (running : Running ground start world) : world.Aligned :=
  (running.holds based).2.aligned

theorem aligned_spec (host : Host) (fuel : Nat) :
    RunSpec .grounded (watchedPerform World.Aligned host fuel) (perform host fuel) :=
  watchedPerform_spec (fun _ _ _ based running => running.aligned based) host fuel

end Machine

namespace Interpreter

open Machine Keeping

variable {stage : Stage} {world : World}

theorem leaves_onReader {α : Type}
    (exchange : Reader → SymbolTable → α × Reader × SymbolTable) :
    (Keeping.resuming stage).Leaves (onReader exchange) := by
  intro world holds
  have ready := stage.ready world holds
  have ages {symbols : SymbolTable} : world.store.Ages { world.store with symbols } :=
    ⟨⟨List.prefix_rfl, List.prefix_rfl⟩, List.prefix_rfl, .of_eq rfl rfl⟩
  exact ⟨⟨⟨rfl, ages⟩, rfl, .here⟩, ⟨ready.sound, ready.base, ready.hasScope⟩, rfl, rfl, rfl⟩

theorem leaves_valuesOf (told : List Datum × Option Error) :
    (Keeping.resuming stage).Leaves (valuesOf told) := by
  obtain ⟨data, error⟩ := told
  cases error with
  | none => exact (tame_onStore fun store => store.loadAll_keeps data).leavesAlone
  | some cause => exact leaves_fail cause

theorem leaves_readText (text : String) : (Keeping.resuming stage).Leaves (readText text) :=
  (leaves_onReader _).bind fun told => leaves_valuesOf told

theorem evalText_deepens (host : Host) (fuel : Nat) (text : String) (ready : world.Ready) :
    let after := lastState (evalText host fuel text) world
    world.Deepens after ∧ after.Ready := by
  have leaves : (Keeping.resuming .everywhere).Leaves (readText text) := leaves_readText text
  rw [lastState, evalText, bind_apply]
  cases read : readText text world with
  | ok values between =>
      have resumes := leaves.of_ok ready read
      obtain ⟨deepens, ends⟩ := perform_evaluate_deepens .everywhere host fuel values resumes.ready
      exact ⟨resumes.toDeepens.trans deepens, ends⟩
  | error stop after =>
      have resumes := leaves.of_error ready read
      exact ⟨resumes.toDeepens, resumes.ready⟩

theorem holds_evalText (host : Host) (fuel : Nat) (text : String) (holds : stage.holds world) :
    stage.holds (lastState (evalText host fuel text) world) := by
  obtain ⟨deepens, ready⟩ := evalText_deepens host fuel text (stage.ready world holds)
  exact stage.extended world _ holds deepens ready

theorem holds_apply (host : Host) (fuel : Nat) (function : Value) (arguments : List Value)
    (holds : stage.holds world) :
    stage.holds (lastState (apply host fuel function arguments) world) :=
  (Keeping.resuming stage).kept holds
    ((serves_perform stage host fuel).apply function arguments world holds)

theorem evalText_watched {law : World → Prop} [DecidablePred law] {host : Host} {fuel : Nat}
    (spec : RunSpec stage (watchedPerform law host fuel) (perform host fuel)) (text : String)
    (opens : ∀ world, stage.holds world → stage.opens world) (holds : stage.holds world) :
    Unstopped (watchedEvalText law host fuel text) (evalText host fuel text) world := by
  have faultless : Faultless (watchedEvalText law host fuel text) (evalText host fuel text)
      world fun _ _ => True := by
    refine Faultless.bind ((faultless_reading text (stage.ready world holds)).mono ?_)
    rintro values read ⟨later, ready, reader, env⟩
    have deepens : world.Deepens read := by
      refine ⟨later, ?_, ?_⟩
      · rw [env]
      · rw [env]
        exact .here
    have opened := opens read (stage.extended world read holds deepens ready)
    exact (spec.evaluate values read opened).mono fun _ _ _ => trivial
  exact faultless.unstopped

theorem evalText_unstopped (host : Host) (fuel : Nat) (text : String)
    (holds : Stage.grounded.holds world) :
    Unstopped (watchedEvalText World.Aligned host fuel text) (evalText host fuel text) world :=
  evalText_watched (aligned_spec host fuel) text (fun _ holds => holds) holds

/-! States of an interpreter. -/

/-- The states that an interpreter can be left in: new, and behind whatever was asked of it and
however that ended. -/
inductive Reached (host : Host) (config : Config) : World → Prop
  | fresh : Reached host config (fresh config)
  | evalText {world : World} (fuel : Nat) (text : String) : Reached host config world →
    Reached host config (lastState (evalText host fuel text) world)
  | apply {world : World} (fuel : Nat) (function : Value) (arguments : List Value) :
    Reached host config world →
    Reached host config (lastState (apply host fuel function arguments) world)
  | clear {world : World} : Reached host config world →
    Reached host config (lastState clear world)

theorem addFunction_ages (store : Store) (function : Function) :
    store.Ages (store.addFunction function) := by
  unfold Store.addFunction
  refine (store.intern_keeps function.name).ages.trans
    (Store.Ages.trans ?_ (Store.define_keeps _ _ _ _).ages)
  have same := (store.intern_keeps function.name).functions
  exact ⟨⟨by simp [same], List.prefix_rfl⟩, List.prefix_rfl, .of_eq rfl rfl⟩

theorem addStandard_ages (natives : List Standard) (store : Store) :
    store.Ages (addStandard natives store) := by
  induction natives generalizing store with
  | nil => exact .refl store
  | cons native later ih =>
      exact (addFunction_ages store _).trans (ih _)

theorem fresh_grounded (config : Config) : (Interpreter.fresh config).Grounded := by
  have isOpen : Store.empty.Opened false Store.global Store.global :=
    ⟨Nat.le_refl _, Nat.one_pos, rfl⟩
  refine ⟨?_, .here⟩
  rw [fresh_store]
  exact isOpen.lasts (addStandard_ages Standard.all .empty).toLasts

theorem clear_grounded (holds : Stage.grounded.holds world) :
    Stage.grounded.holds (lastState clear world) := by
  obtain ⟨ready, isOpen, stacked⟩ := holds
  obtain ⟨own, scopes, _⟩ := stacked.own
  have left : (world.env.scopes.truncate 1).elements = [Store.global] :=
    Stack.elements_truncate_one (by simp [scopes])
  refine ⟨⟨ready.sound, Nat.le_refl _, ?_⟩, isOpen, ?_⟩
  · change 0 < (world.env.scopes.truncate 1).size
    rw [Stack.size_eq, left]
    exact Nat.one_pos
  · change world.store.Stacked Store.global [Store.global] [] (world.env.scopes.truncate 1).elements []
    rw [left]
    exact .here

theorem Reached.grounded {host : Host} {config : Config} (reached : Reached host config world) :
    Stage.grounded.holds world := by
  induction reached with
  | fresh => exact ⟨fresh_ready config, fresh_grounded config⟩
  | evalText fuel text _ ih => exact holds_evalText host fuel text ih
  | apply fuel function arguments _ ih => exact holds_apply host fuel function arguments ih
  | clear _ ih => exact clear_grounded ih

/-- In every state that an interpreter can be left in, calls and their scopes are aligned, and so they
are before each step of all runs that start from there. -/
theorem reached_aligned (host : Host) (config : Config) (world : World)
    (reached : Reached host config world) :
    world.Aligned ∧
      (∀ fuel text, Unstopped (watchedEvalText World.Aligned host fuel text)
        (evalText host fuel text) world) ∧
      ∀ fuel function arguments,
        Unstopped (watchedPerform World.Aligned host fuel (.apply function arguments))
          (apply host fuel function arguments) world := by
  have holds := reached.grounded
  refine ⟨holds.2.aligned, fun fuel text => ?_, fun fuel function arguments => ?_⟩
  · exact evalText_unstopped host fuel text holds
  · exact ((aligned_spec host fuel).apply function arguments world holds).unstopped

/-- An interpreter that was left in the midst of a callback, with a scope open in it. -/
theorem reached_aligned_failed :
    let world := lastState (evalText .none 20 "(map (fn [x] (let [y x] z)) [1])") (fresh default)
    Reached .none default world ∧ world.env.calls.size = 1 ∧ world.env.scopes.size = 3 ∧
      world.Aligned ∧
      Unstopped (watchedEvalText World.Aligned .none 20 "(map (fn [x] x) [1])")
        (evalText .none 20 "(map (fn [x] x) [1])") world := by
  intro world
  have reached : Reached .none default world := .evalText 20 _ .fresh
  obtain ⟨aligned, texts, _⟩ := reached_aligned .none default world reached
  exact ⟨reached, by decide +kernel, by decide +kernel, aligned, texts 20 _⟩

end Interpreter

end StackLisp
