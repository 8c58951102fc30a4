import StackLisp.Proofs.Machine.Ready

/-!
Stages: properties of states that runs keep, and that the runs inside of them start with.
-/

namespace StackLisp

structure World.Extends (world after : World) : Prop where
  later : world.Later after
  nesting : after.env.nesting = world.env.nesting
  scopes : ∃ own, after.env.scopes.elements = own ++ world.env.scopes.elements ∧
    ∀ ref ∈ own, world.store.scopes.size ≤ ref ∧ ref < after.store.scopes.size

/-- Stacks of scopes and of calls that have grown on others since a place in the store was new: each
call has a scope of its own, and between those are the ones that other forms have opened. -/
inductive Store.Stacked (store : Store) (since : ScopeRef) (scopes : List ScopeRef)
    (calls : List CallFrame) : List ScopeRef → List CallFrame → Prop
  | here : Stacked store since scopes calls scopes calls
  | opened {ref inner frames} : store.Opened false since ref →
    Stacked store since scopes calls inner frames →
    Stacked store since scopes calls (ref :: inner) frames
  | called {ref inner frame frames} : store.Boundary since ref frame inner →
    Stacked store since scopes calls inner frames →
    Stacked store since scopes calls (ref :: inner) (frame :: frames)

section Stacked

variable {store later : Store} {since : ScopeRef} {scopes inner : List ScopeRef}
  {calls frames : List CallFrame}

theorem Store.Stacked.own (stacked : store.Stacked since scopes calls inner frames) :
    ∃ own, inner = own ++ scopes ∧ ∀ ref ∈ own, since ≤ ref ∧ ref < store.scopes.size := by
  induction stacked with
  | here => exact ⟨[], rfl, by simp⟩
  | @opened ref _ _ isOpen _ ih =>
      obtain ⟨own, rfl, new⟩ := ih
      exact ⟨ref :: own, rfl, List.forall_mem_cons.mpr ⟨⟨isOpen.since, isOpen.known⟩, new⟩⟩
  | @called ref _ _ _ boundary _ ih =>
      obtain ⟨own, rfl, new⟩ := ih
      obtain ⟨isOpen, _, _⟩ := boundary
      exact ⟨ref :: own, rfl, List.forall_mem_cons.mpr ⟨⟨isOpen.since, isOpen.known⟩, new⟩⟩

theorem Store.Stacked.calls_le (stacked : store.Stacked since scopes calls inner frames) :
    calls.length ≤ frames.length := by
  induction stacked with
  | here => exact Nat.le_refl _
  | opened _ _ ih => exact ih
  | called _ _ ih => exact Nat.le_succ_of_le ih

theorem Store.Stacked.ages (stacked : store.Stacked since scopes calls inner frames)
    (ages : store.Ages later) : later.Stacked since scopes calls inner frames := by
  induction stacked with
  | here => exact .here
  | opened isOpen _ ih => exact .opened (isOpen.lasts ages.toLasts) ih
  | called boundary _ ih => exact .called (boundary.ages ages) ih

theorem Store.Stacked.openAll (stacked : store.Stacked since scopes calls inner frames)
    {own : List ScopeRef} (opened : ∀ ref ∈ own, store.Opened false since ref) :
    store.Stacked since scopes calls (own ++ inner) frames := by
  induction own with
  | nil => exact stacked
  | cons ref own ih =>
      obtain ⟨isOpen, others⟩ := List.forall_mem_cons.mp opened
      exact .opened isOpen (ih others)

theorem Store.Stacked.trans {before : ScopeRef} {outer : List ScopeRef} {pending : List CallFrame}
    (first : store.Stacked before outer pending scopes calls)
    (second : store.Stacked since scopes calls inner frames) (older : before ≤ since) :
    store.Stacked before outer pending inner frames := by
  induction second with
  | here => exact first
  | opened isOpen _ ih =>
      exact .opened ⟨Nat.le_trans older isOpen.since, isOpen.known, isOpen.isCall⟩ ih
  | called boundary _ ih =>
      obtain ⟨isOpen, name, depth⟩ := boundary
      exact .called ⟨⟨Nat.le_trans older isOpen.since, isOpen.known, isOpen.isCall⟩, name, depth⟩ ih

end Stacked

/-- A state that a run can come to: on the same level, with new scopes and calls on the stacks that
there were. -/
structure World.Deepens (world after : World) : Prop where
  later : world.Later after
  nesting : after.env.nesting = world.env.nesting
  stacked : after.store.Stacked world.store.scopes.size world.env.scopes.elements
    world.env.calls.elements after.env.scopes.elements after.env.calls.elements

theorem World.Deepens.extends {world after : World} (deepens : world.Deepens after) :
    world.Extends after := ⟨deepens.later, deepens.nesting, deepens.stacked.own⟩

theorem World.Deepens.trans {world between after : World} (first : world.Deepens between)
    (second : between.Deepens after) : world.Deepens after := by
  refine ⟨first.later.trans second.later, second.nesting.trans first.nesting, ?_⟩
  exact (first.stacked.ages second.later.ages).trans second.stacked first.later.lasts.scopes_le

theorem Env.SameStacks.deepens {world after : World} (same : world.env.SameStacks after.env)
    (later : world.Later after) : world.Deepens after := by
  refine ⟨later, same.nesting, ?_⟩
  rw [same.scopes, same.calls]
  exact .here

theorem World.Steady.deepens {world after : World} (steady : world.Steady after) :
    world.Deepens after := by
  refine Env.SameStacks.deepens ?_ steady.later
  constructor
  all_goals rw [steady.env]

namespace Machine

def inner (function : Function) (world : World) : World :=
  { world with env := { world.env with
      function
      pc := some 0
      base := world.env.calls.size
      nesting := world.env.nesting + 1 } }

def apart (journal : Journal) (world : World) : World :=
  { world with journal, env := { Env.fresh with nesting := world.env.nesting + 1 } }

/-- What holds wherever runs are under way, and what holds where one is started in an interpreter of
its own. -/
structure Stage where
  holds : World → Prop
  opens : World → Prop
  ready : ∀ world, holds world → world.Ready
  opened : ∀ world, opens world → holds world
  extended : ∀ world after, holds world → world.Deepens after → after.Ready → holds after
  inner : ∀ world function, holds world → world.env.nesting < world.config.maxNesting →
    holds (inner function world)
  apart : ∀ world journal, holds world → world.env.nesting < world.config.maxNesting →
    opens (apart journal world)

theorem Stage.steady (stage : Stage) {world after : World} (holds : stage.holds world)
    (steady : world.Steady after) : stage.holds after :=
  stage.extended world after holds steady.deepens (steady.ready (stage.ready world holds))

theorem ready_inner {world : World} (ready : world.Ready) (function : Function) :
    (inner function world).Ready := ⟨ready.sound, Nat.le_refl _, ready.hasScope⟩

theorem ready_apart {world : World} (ready : world.Ready) (journal : Journal) :
    (apart journal world).Ready := ⟨ready.sound, Nat.zero_le _, Nat.one_pos⟩

def Stage.everywhere : Stage where
  holds := World.Ready
  opens := World.Ready
  ready := fun _ ready => ready
  opened := fun _ ready => ready
  extended := fun _ _ _ _ ready => ready
  inner := fun _ function ready _ => ready_inner ready function
  apart := fun _ journal ready _ => ready_apart ready journal

end Machine

end StackLisp
