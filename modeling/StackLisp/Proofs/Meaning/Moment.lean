import StackLisp.Proofs.Machine.Strict
import StackLisp.Proofs.Meaning.Evaluation

/-!
Moments of a machine: what an evaluation sees of it, and what it does not, the place in the code and
the stacks of values and calls. Each instruction leads from one moment to the next, whatever state
of the machine it is that shows the moment.
-/

namespace StackLisp.Machine

structure Moment where
  site : Site
  memory : Memory
  pc : Nat
  data : List Value
  calls : List CallFrame

structure Moment.Shown (moment : Moment) (world : World) : Prop where
  site : world.site = moment.site
  memory : world.memory = moment.memory
  pc : world.env.pc = some moment.pc
  data : world.env.data.elements = moment.data
  calls : world.env.calls.elements = moment.calls

section Steps

variable (host : Host) (perform : Perform)

inductive Steps : World → World → Prop
  | refl (world : World) : Steps world world
  | head {world between after : World} :
    step host perform world = .ok true between → Steps between after → Steps world after

def Reaches (start finish : Moment) : Prop :=
  ∀ world, start.Shown world → ∃ after, Steps host perform world after ∧ finish.Shown after

def Fails (start : Moment) (stop : Stop) (memory : Memory) : Prop :=
  ∀ world, start.Shown world → ∃ between found after, Steps host perform world between ∧
    step host perform between = .error found after ∧ found.untraced = stop.untraced ∧
      after.memory = memory

end Steps

variable {host : Host} {perform : Perform}

theorem Steps.trans {first second third : World} (front : Steps host perform first second)
    (back : Steps host perform second third) : Steps host perform first third := by
  induction front with
  | refl => exact back
  | head stepped _ ih => exact .head stepped (ih back)

theorem reaches_refl (moment : Moment) : Reaches host perform moment moment := by
  intro world shown
  exact ⟨world, .refl world, shown⟩

theorem Reaches.trans {first second third : Moment} (front : Reaches host perform first second)
    (back : Reaches host perform second third) : Reaches host perform first third := by
  intro world shown
  obtain ⟨between, frontSteps, between_shown⟩ := front world shown
  obtain ⟨after, backSteps, after_shown⟩ := back between between_shown
  exact ⟨after, frontSteps.trans backSteps, after_shown⟩

theorem Reaches.fails {first second : Moment} {stop : Stop} {memory : Memory}
    (front : Reaches host perform first second) (back : Fails host perform second stop memory) :
    Fails host perform first stop memory := by
  intro world shown
  obtain ⟨between, frontSteps, between_shown⟩ := front world shown
  obtain ⟨last, found, after, backSteps, failed⟩ := back between between_shown
  exact ⟨last, found, after, frontSteps.trans backSteps, failed⟩

/-! One step. -/

theorem plain_record (journal : Journal) (message : String) :
    Journal.plain { journal with log := journal.log.push (.trace, message) } = journal.plain := by
  simp [Journal.plain]

theorem log_trace_apply (message : Unit → String) (world : World) :
    ∃ journal : Journal, journal.plain = world.journal.plain ∧
      log .trace message world = .ok () { world with journal } := by
  by_cases logging : world.config.logging = true
  · refine ⟨_, plain_record world.journal (message ()), ?_⟩
    simp only [log, bind_apply, currentConfig_apply, logging, ↓reduceIte]
    rfl
  · refine ⟨world.journal, rfl, ?_⟩
    simp only [log, bind_apply, currentConfig_apply, logging]
    rfl

theorem logInstr_apply (instr : Instr) (world : World) :
    ∃ journal : Journal, journal.plain = world.journal.plain ∧
      logInstr instr world = .ok () { world with journal } := by
  by_cases tracing : world.config.tracing = true
  · simp only [logInstr, bind_apply, currentConfig_apply, tracing, ↓reduceIte, currentEnv_apply,
      readStore_apply]
    exact log_trace_apply _ world
  · refine ⟨world.journal, rfl, ?_⟩
    simp only [logInstr, bind_apply, currentConfig_apply, tracing]
    rfl

theorem Moment.Shown.logged {moment : Moment} {world : World} (shown : moment.Shown world)
    {journal : Journal} (plain : journal.plain = world.journal.plain) :
    moment.Shown { world with journal } := by
  obtain ⟨site, memory, pc, data, calls⟩ := shown
  refine ⟨site, ?_, pc, data, calls⟩
  rw [← memory, World.memory, World.memory, plain]

theorem step_apply (host : Host) (perform : Perform) {world : World} {instr : Instr}
    (next : nextInstr? world.env = some instr) :
    ∃ journal : Journal, journal.plain = world.journal.plain ∧
      step host perform world = (do execute host perform instr; return true) { world with journal } := by
  obtain ⟨journal, plain, logged⟩ := logInstr_apply instr world
  refine ⟨journal, plain, ?_⟩
  rw [step, bind_apply, currentEnv_apply]
  simp only [next, bind_apply, logged]

variable {start finish : Moment} {instr : Instr}

theorem Moment.Shown.next {moment : Moment} {world : World} (shown : moment.Shown world)
    (found : moment.site.function.code[moment.pc]? = some instr) :
    nextInstr? world.env = some instr := by
  have function : world.env.function = moment.site.function := congrArg Site.function shown.site
  rw [nextInstr?, shown.pc, function]
  exact found

theorem reaches_of_execute (found : start.site.function.code[start.pc]? = some instr)
    (executes : ∀ world, start.Shown world →
      ∃ after, execute host perform instr world = .ok () after ∧ finish.Shown after) :
    Reaches host perform start finish := by
  intro world shown
  obtain ⟨journal, plain, stepped⟩ := step_apply host perform (shown.next found)
  obtain ⟨after, executed, after_shown⟩ := executes _ (shown.logged plain)
  refine ⟨after, .head ?_ (.refl after), after_shown⟩
  rw [stepped, bind_apply, executed]
  rfl

theorem fails_of_execute {stop : Stop} {memory : Memory}
    (found : start.site.function.code[start.pc]? = some instr)
    (executes : ∀ world, start.Shown world → ∃ cause after,
      execute host perform instr world = .error cause after ∧ cause.untraced = stop.untraced ∧
        after.memory = memory) :
    Fails host perform start stop memory := by
  intro world shown
  obtain ⟨journal, plain, stepped⟩ := step_apply host perform (shown.next found)
  obtain ⟨cause, after, executed, same, left⟩ := executes _ (shown.logged plain)
  refine ⟨world, cause, after, .refl world, ?_, same, left⟩
  rw [stepped, bind_apply, executed]

end StackLisp.Machine
