import StackLisp.Proofs.Meaning.Evaluation

/-!
Memories that a machine can have. An evaluation does not see the instructions that a machine records;
it goes from a memory that some machine has to another one.
-/

namespace StackLisp

namespace Memory

def Plain (memory : Memory) : Prop := memory.journal.plain = memory.journal

theorem plain_withStore {memory : Memory} {store : Store} :
    (memory.withStore store).Plain ↔ memory.Plain := .rfl

theorem plain_world (world : World) : world.memory.Plain := by
  simp [Plain, World.memory, Journal.plain, Array.filter_filter]

theorem Plain.observed {memory : Memory} (plain : memory.Plain) (config : Config) (event : Event)
    (values : List Value) : (memory.observed config event values).Plain := by
  unfold Memory.observed
  split
  · have log : memory.journal.log.filter (fun entry => entry.1 != .trace) = memory.journal.log :=
      congrArg Journal.log plain
    simp only [Plain, Journal.plain, log]
  · exact plain

end Memory

def Site.world (site : Site) (memory : Memory) : World :=
  { config := site.config
    store := memory.store
    env := { Env.fresh with
      scopes := ⟨site.scopes, site.scopes.length, rfl⟩
      calls := ⟨List.replicate site.depth default, site.depth, by simp⟩
      function := site.function
      base := site.base
      nesting := site.nesting
      reader := site.reader }
    journal := memory.journal }

theorem Site.world_site (site : Site) (memory : Memory) : (site.world memory).site = site := rfl

theorem Site.world_memory (site : Site) {memory : Memory} (plain : memory.Plain) :
    (site.world memory).memory = memory := congrArg (Memory.mk memory.store) plain

namespace Machine

variable {host : Host} {perform : Perform}

theorem evaluates_plain {site : Site} {memory after : Memory} {task : Task} {outcome : Outcome}
    (evaluates : Evaluates host perform site memory task outcome after) (plain : memory.Plain) :
    after.Plain := by
  induction evaluates with
  | native made accepted gives =>
      refine Memory.Plain.observed ?_ _ _ _
      obtain ⟨ended, _, _, _, same⟩ := gives _ (Site.world_site _ _)
        (Site.world_memory _ (plain.observed _ _ _))
      exact same ▸ Memory.plain_world ended
  | nativeStops made accepted halts =>
      obtain ⟨_, ended, _, _, same⟩ := halts _ (Site.world_site _ _)
        (Site.world_memory _ (plain.observed _ _ _))
      exact same ▸ Memory.plain_world ended
  | argCount | tooDeep => exact plain.observed _ _ _
  | refused _ _ observed =>
      subst observed
      exact plain.observed _ _ _
  | returns _ _ observed _ _ ih =>
      subst observed
      exact (ih (plain.observed _ _ _)).observed _ _ _
  | stops _ _ observed _ _ ih =>
      subst observed
      exact ih (plain.observed _ _ _)
  | _ => simp_all only [Memory.plain_withStore, forall_const]

end Machine

end StackLisp
