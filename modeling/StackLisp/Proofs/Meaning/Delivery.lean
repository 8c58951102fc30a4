import StackLisp.Proofs.Meaning.Calling
import StackLisp.Proofs.Meaning.Piece

/-!
What a piece of code leads to, by what its expression comes to: behind the piece with the value on
the stack, to where the loop around it goes on, or to the same failure.
-/

namespace StackLisp.Machine

structure Around where
  target : Exit → Nat
  data : List Value
  scopes : List ScopeRef

def Around.left (loop : Around) (start : Moment) (exit : Exit) (memory : Memory) : Moment :=
  ⟨{ start.site with scopes := loop.scopes }, memory, loop.target exit, loop.data, start.calls⟩

structure Moment.Beside (first second : Moment) : Prop where
  site : { first.site with scopes := [] } = { second.site with scopes := [] }
  calls : first.calls = second.calls

section Delivers

variable (host : Host) (perform : Perform)

def Delivers (around : Option Around) (start : Moment) (finish : List Value → Memory → Moment) :
    Outcome → Memory → Prop
  | .values values, memory => Reaches host perform start (finish values memory)
  | .interrupted (.leaves exit), memory =>
    ∀ loop, around = some loop → Reaches host perform start (loop.left start exit memory)
  | .interrupted (.stops stop), memory => Fails host perform start stop memory

end Delivers

variable {host : Host} {perform : Perform} {around : Option Around} {start between : Moment}
  {memory : Memory} {finish later : List Value → Memory → Moment} {outcome : Outcome}

theorem Moment.Beside.left {first second : Moment} (beside : first.Beside second) (loop : Around)
    (exit : Exit) (memory : Memory) : loop.left first exit memory = loop.left second exit memory := by
  have sites := congrArg (fun site : Site => { site with scopes := loop.scopes }) beside.site
  rw [Around.left, Around.left, beside.calls]
  exact congrArg (fun site => Moment.mk site memory (loop.target exit) loop.data second.calls) sites

theorem Delivers.behind (delivers : Delivers host perform around between finish outcome memory)
    (front : Reaches host perform start between) (beside : start.Beside between) :
    Delivers host perform around start finish outcome memory := by
  cases outcome with
  | values values => exact front.trans delivers
  | interrupted way =>
      cases way with
      | leaves exit =>
          intro loop found
          rw [beside.left]
          exact front.trans (delivers loop found)
      | stops stop => exact front.fails delivers

theorem Delivers.onward (delivers : Delivers host perform around start finish outcome memory)
    (goesOn : ∀ values, outcome = .values values →
      Reaches host perform (finish values memory) (later values memory)) :
    Delivers host perform around start later outcome memory := by
  cases outcome with
  | values values => exact Reaches.trans delivers (goesOn values rfl)
  | interrupted way =>
      cases way with
      | leaves exit => exact delivers
      | stops stop => exact delivers

theorem Delivers.interrupted {way : Interruption}
    (delivers : Delivers host perform around start finish (.interrupted way) memory) :
    Delivers host perform around start later (.interrupted way) memory :=
  delivers.onward fun _ impossible => nomatch impossible

structure Stands (place : Place) (around : Option Around) (site : Site) (data : List Value)
    (calls : List CallFrame) : Prop where
  scopes : place.scopes < site.scopes.length
  inLoop : ∀ loop, around = some loop → ∃ outer, place.loop = some outer ∧
    outer.pending ≤ place.pending ∧ outer.scopes ≤ place.scopes ∧
    data.drop (place.pending - outer.pending) = loop.data ∧
    site.scopes.drop (place.scopes - outer.scopes) = loop.scopes
  depth : calls.length = site.depth
  base : site.base ≤ site.depth

section Stands

variable {place : Place} {site : Site} {data : List Value} {calls : List CallFrame}

theorem Stands.behindOperand (stands : Stands place around site data calls) (value : Value) :
    Stands place.behindOperand around site (value :: data) calls := by
  refine ⟨stands.scopes, fun loop found => ?_, stands.depth, stands.base⟩
  obtain ⟨outer, inLoop, pending, scopes, dropped, closed⟩ := stands.inLoop loop found
  refine ⟨outer, inLoop, Nat.le_succ_of_le pending, scopes, ?_, closed⟩
  have more : place.behindOperand.pending - outer.pending = place.pending - outer.pending + 1 :=
    Nat.succ_sub pending
  rw [more, List.drop_succ_cons]
  exact dropped

theorem Stands.inScope (stands : Stands place around site data calls) (ref : ScopeRef) :
    Stands place.inScope around (site.inScope ref) data calls := by
  refine ⟨Nat.succ_lt_succ stands.scopes, fun loop found => ?_, stands.depth, stands.base⟩
  obtain ⟨outer, inLoop, pending, scopes, dropped, closed⟩ := stands.inLoop loop found
  refine ⟨outer, inLoop, pending, Nat.le_succ_of_le scopes, dropped, ?_⟩
  have more : place.inScope.scopes - outer.scopes = place.scopes - outer.scopes + 1 :=
    Nat.succ_sub scopes
  rw [more, Site.inScope, List.drop_succ_cons]
  exact closed

theorem Stands.inRound (stands : Stands place around site data calls) (target : Exit → Nat) :
    Stands place.inLoop (some ⟨target, data, site.scopes⟩) site data calls := by
  refine ⟨stands.scopes, fun loop found => ?_, stands.depth, stands.base⟩
  cases found
  refine ⟨⟨place.scopes, place.pending⟩, rfl, Nat.le_refl _, Nat.le_refl _, ?_, ?_⟩
  · rw [Place.inLoop, Nat.sub_self, List.drop_zero]
  · rw [Place.inLoop, Nat.sub_self, List.drop_zero]

theorem stands_called (depth : calls.length = site.depth) (base : site.base ≤ site.depth)
    (function : Function) (ref : ScopeRef) (frame : CallFrame) :
    Stands .start none (site.called function ref) data (frame :: calls) := by
  refine ⟨Nat.succ_pos _, fun loop found => ?_, ?_, Nat.le_succ_of_le base⟩
  · cases found
  · exact congrArg (· + 1) depth

end Stands

/-! The way out of a loop. -/

section Leave

variable {site : Site} {data : List Value} {calls : List CallFrame} {pc : Nat}
  {exits : Option (Exit → Nat)} {shift : Nat}

theorem reaches_pops {count : Nat}
    (lies : Code.Lies site.function.code exits shift pc (List.replicate count .pop)) :
    Reaches host perform ⟨site, memory, pc, data, calls⟩
      ⟨site, memory, pc + count, data.drop count, calls⟩ := by
  induction count generalizing pc data with
  | zero => exact reaches_refl _
  | succ count ih =>
      have rest : Reaches host perform ⟨site, memory, pc + 1, data.drop 1, calls⟩
          ⟨site, memory, pc + 1 + count, (data.drop 1).drop count, calls⟩ := ih lies.2
      rw [List.drop_drop, Nat.add_comm 1 count, Nat.add_assoc, Nat.add_comm 1 count] at rest
      exact (reaches_pop lies.1).trans rest

theorem reaches_closeScopes {count : Nat} (stays : count < site.scopes.length)
    (lies : Code.Lies site.function.code exits shift pc (List.replicate count .closeScope)) :
    Reaches host perform ⟨site, memory, pc, data, calls⟩
      ⟨{ site with scopes := site.scopes.drop count }, memory, pc + count, data, calls⟩ := by
  induction count generalizing pc site with
  | zero => exact reaches_refl _
  | succ count ih =>
      obtain ⟨config, scopes, function, depth, base, nesting, reader⟩ := site
      cases scopes with
      | nil => exact absurd stays (Nat.not_lt_zero _)
      | cons ref scopes =>
          have left : count < scopes.length := Nat.lt_of_succ_lt_succ stays
          have notLast : scopes ≠ [] := by
            rintro rfl
            exact Nat.not_lt_zero _ left
          let inner : Site := ⟨config, scopes, function, depth, base, nesting, reader⟩
          have rest : Reaches host perform ⟨inner, memory, pc + 1, data, calls⟩
              ⟨{ inner with scopes := scopes.drop count }, memory, pc + 1 + count, data, calls⟩ :=
            ih left lies.2
          rw [Nat.add_assoc, Nat.add_comm 1 count] at rest
          exact (reaches_closeScope inner lies.1 notLast).trans rest

theorem delivers_leave {place : Place} {exit : Exit}
    (stands : Stands place around site data calls)
    (lies : Code.Lies site.function.code (around.map Around.target) pc pc (Code.leave place exit)) :
    Delivers host perform around ⟨site, memory, pc, data, calls⟩ finish
      (.interrupted (.leaves exit)) memory := by
  intro loop found
  obtain ⟨outer, inLoop, pending, scopes, dropped, closed⟩ := stands.inLoop loop found
  simp only [Code.leave, inLoop, Option.getD_some, Code.lies_append, Code.lies_cons,
    List.length_replicate] at lies
  obtain ⟨pops, closes, jump, _⟩ := lies
  have stays : place.scopes - outer.scopes < site.scopes.length :=
    Nat.lt_of_le_of_lt (Nat.sub_le _ _) stands.scopes
  have target : (Instr.leave exit).placed pc (around.map Around.target) =
      .jump (loop.target exit) := by
    rw [found]
    rfl
  rw [target] at jump
  rw [Around.left, ← dropped, ← closed]
  exact ((reaches_pops pops).trans (reaches_closeScopes stays closes)).trans (reaches_jump jump)

end Leave

end StackLisp.Machine
