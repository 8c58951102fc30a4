import StackLisp.Proofs.Meaning.Straight

/-!
Loops: their rounds lead back to their tests, and the ways out of a round to where the loop says.
-/

namespace StackLisp.Machine

open Code Form

variable {host : Host} {perform : Perform} {site : Site} {memory tested between after : Memory}
  {around : Option Around} {place : Place} {start left next : Nat} {data : List Value}
  {calls : List CallFrame} {outcome round : Outcome} {way : Interruption} {value : Value}
  {store : Store} {test step : Expression} {contents : List Expression}

section Exits

variable {task : Task}

theorem reaches_exit {exit : Exit}
    (leaves : CodeDelivers host perform site memory task (.interrupted (.leaves exit)) after)
    (lies : Lies site.function.code (some (Exit.towards left next)) start start
      (task.code place.inLoop))
    (stands : Stands place around site data calls) :
    Reaches host perform ⟨site, memory, start + task.entry place.inLoop, data, calls⟩
      ⟨site, after, exit.towards left next, data, calls⟩ := by
  let loop : Around := ⟨Exit.towards left next, data, site.scopes⟩
  have placed : Placed site (some loop) start (task.code place.inLoop) := lies
  exact leaves placed (stands.inRound (Exit.towards left next)) loop rfl

theorem fails_inLoop {stop : Stop}
    (stops : CodeDelivers host perform site memory task (.interrupted (.stops stop)) after)
    (lies : Lies site.function.code (some (Exit.towards left next)) start start
      (task.code place.inLoop))
    (stands : Stands place around site data calls) :
    Fails host perform ⟨site, memory, start + task.entry place.inLoop, data, calls⟩ stop after := by
  let loop : Around := ⟨Exit.towards left next, data, site.scopes⟩
  have placed : Placed site (some loop) start (task.code place.inLoop) := lies
  exact stops placed (stands.inRound (Exit.towards left next))

theorem reaches_nextRound
    (ran : CodeDelivers host perform site memory (.round contents) round after)
    (ends : round.endsRound = true)
    (lies : Lies site.function.code (some (Exit.towards left next)) start start
      (Task.code place.inLoop (.round contents)))
    (stands : Stands place around site data calls)
    (behind : Reaches host perform
      ⟨site, after, start + (Task.code place.inLoop (.round contents)).length, data, calls⟩
      ⟨site, after, next, data, calls⟩) :
    Reaches host perform ⟨site, memory, start, data, calls⟩ ⟨site, after, next, data, calls⟩ := by
  let loop : Around := ⟨Exit.towards left next, data, site.scopes⟩
  have placed : Placed site (some loop) start (Task.code place.inLoop (.round contents)) := lies
  have inRound := stands.inRound (Exit.towards left next)
  match round, ends with
  | .values [], _ => exact Reaches.trans (ran placed inRound) behind
  | .interrupted (.leaves .nextRound), _ => exact reaches_exit ran lies stands

end Exits

/-! Every loop. -/

section Loop

structure PlacedLoop (site : Site) (around : Option Around) (place : Place) (start next left : Nat)
    (test : Expression) (contents : List Expression) : Prop where
  testLies : Placed site around start (test.form.code place)
  branch : site.function.code[start + (test.form.code place).length]? = some (.branch false left)
  roundLies : Lies site.function.code (some (Exit.towards left next))
    (start + (test.form.code place).length + 1) (start + (test.form.code place).length + 1)
    (Task.code place.inLoop (.round contents))

variable (tests : CodeDelivers host perform site memory (.expression test) (.values [value]) tested)
  (placed : PlacedLoop site around place start next left test contents)
  (stands : Stands place around site data calls)

include tests placed stands

theorem reaches_behindLoop (falsy : value.isTruthy = false) :
    Reaches host perform ⟨site, memory, start, data, calls⟩ ⟨site, tested, left, data, calls⟩ := by
  have branches := (tests.reaches placed.testLies stands).trans (reaches_branch placed.branch)
  rw [if_pos falsy] at branches
  exact branches

theorem reaches_round (truthy : value.isTruthy = true) :
    Reaches host perform ⟨site, memory, start, data, calls⟩
      ⟨site, tested, start + (test.form.code place).length + 1, data, calls⟩ := by
  have branches := (tests.reaches placed.testLies stands).trans (reaches_branch placed.branch)
  rw [truthy, if_neg (Bool.noConfusion)] at branches
  exact branches

theorem reaches_broken (truthy : value.isTruthy = true)
    (ran : CodeDelivers host perform site tested (.round contents)
      (.interrupted (.leaves .leaveLoop)) after) :
    Reaches host perform ⟨site, memory, start, data, calls⟩ ⟨site, after, left, data, calls⟩ :=
  (reaches_round tests placed stands truthy).trans (reaches_exit ran placed.roundLies stands)

theorem fails_inRound {stop : Stop} (truthy : value.isTruthy = true)
    (ran : CodeDelivers host perform site tested (.round contents) (.interrupted (.stops stop))
      after) :
    Fails host perform ⟨site, memory, start, data, calls⟩ stop after :=
  (reaches_round tests placed stands truthy).fails (fails_inLoop ran placed.roundLies stands)

end Loop

/-! A loop with a test alone. -/

section While

theorem placed_while
    (lies : Placed site around start (Task.code place (.expression (.whileLoop test contents)))) :
    ∃ left, PlacedLoop site around place start start left test contents ∧
      site.function.code[start + (test.form.code place).length + 1 +
        (Task.code place.inLoop (.round contents)).length]? = some (.jump start) ∧
      site.function.code[left]? = some (.push .nil) ∧
      start + (Task.code place (.expression (.whileLoop test contents))).length = left + 1 := by
  obtain ⟨loopLies, done, _⟩ := lies_append.mp lies
  obtain ⟨testLies, branch, roundLies, again⟩ := lies_loop loopLies
  refine ⟨_, ⟨testLies, branch, roundLies⟩, again, ?_, ?_⟩
  · rw [loop_length] at done
    simp only [← Nat.add_assoc] at done
    exact done
  · change start + (Code.loop (test.form.code place) (Task.code place.inLoop (.round contents)) 0 ++
      [Instr.push .nil]).length = _
    rw [List.length_append, loop_length]
    simp only [List.length_singleton, ← Nat.add_assoc]
    rfl

variable (tests : CodeDelivers host perform site memory (.expression test) (.values [value]) tested)

include tests

theorem delivers_whileEnds (falsy : value.isTruthy = false) :
    CodeDelivers host perform site memory (.expression (.whileLoop test contents)) (.values [.nil])
      tested := by
  intro around place start data calls lies stands
  obtain ⟨left, placed, _, done, finish⟩ := placed_while lies
  rw [finish]
  exact (reaches_behindLoop tests placed stands falsy).trans (reaches_push done)

theorem delivers_whileAgain (truthy : value.isTruthy = true)
    (ran : CodeDelivers host perform site tested (.round contents) round between)
    (ends : round.endsRound = true)
    (rest : CodeDelivers host perform site between (.expression (.whileLoop test contents)) outcome
      after) :
    CodeDelivers host perform site memory (.expression (.whileLoop test contents)) outcome after := by
  intro around place start data calls lies stands
  obtain ⟨left, placed, again, _, _⟩ := placed_while lies
  have entered := reaches_round tests placed stands truthy
  have back := reaches_nextRound ran ends placed.roundLies stands (reaches_jump again)
  exact (rest lies stands).behind (entered.trans back) beside_refl

theorem delivers_whileLeft (truthy : value.isTruthy = true)
    (ran : CodeDelivers host perform site tested (.round contents)
      (.interrupted (.leaves .leaveLoop)) after) :
    CodeDelivers host perform site memory (.expression (.whileLoop test contents)) (.values [.nil])
      after := by
  intro around place start data calls lies stands
  obtain ⟨left, placed, _, done, finish⟩ := placed_while lies
  rw [finish]
  exact (reaches_broken tests placed stands truthy ran).trans (reaches_push done)

theorem delivers_whileStops {stop : Stop} (truthy : value.isTruthy = true)
    (ran : CodeDelivers host perform site tested (.round contents) (.interrupted (.stops stop))
      after) :
    CodeDelivers host perform site memory (.expression (.whileLoop test contents))
      (.interrupted (.stops stop)) after := by
  intro around place start data calls lies stands
  obtain ⟨left, placed, _⟩ := placed_while lies
  exact fails_inRound tests placed stands truthy ran

end While

/-! A loop with a step between its rounds. -/

section Cycle

abbrev stepStart (place : Place) (start : Nat) (test step : Expression)
    (contents : List Expression) : Nat :=
  start + Task.entry place (.steps test step contents)

theorem stepStart_eq (place : Place) (start : Nat) (test step : Expression)
    (contents : List Expression) :
    start + (test.form.code place).length + 1 +
        (Task.code place.inLoop (.round contents)).length =
      stepStart place start test step contents := by
  simp only [stepStart, Task.entry, Task.code, Nat.add_assoc]

theorem placed_cycle (lies : Placed site around start (cycleCode place test step contents)) :
    PlacedLoop site around place start (stepStart place start test step contents)
        (start + (cycleCode place test step contents).length) test contents ∧
      Lies site.function.code
        (some (Exit.towards (start + (cycleCode place test step contents).length)
          (stepStart place start test step contents)))
        (stepStart place start test step contents) (stepStart place start test step contents)
        (step.form.code place.inLoop) ∧
      site.function.code[stepStart place start test step contents +
        (step.form.code place.inLoop).length]? = some .pop ∧
      site.function.code[stepStart place start test step contents +
        (step.form.code place.inLoop).length + 1]? = some (.jump start) := by
  obtain ⟨testLies, branch, innerLies, again⟩ := lies_loop lies
  have stepAt : start + (test.form.code place).length + 1 +
      (roundCode place.inLoop (Expression.forms contents)).length =
        stepStart place start test step contents := stepStart_eq ..
  have stepHere : start + ((test.form.code place).length + 1 +
      (roundCode place.inLoop (Expression.forms contents)).length) =
        stepStart place start test step contents := rfl
  have endAt : start + (test.form.code place).length + 1 +
      ((roundCode place.inLoop (Expression.forms contents)).followedBy
        (step.form.code place.inLoop ++ [.pop])).length + 1 =
        start + (cycleCode place test step contents).length := by
    rw [cycleCode, loop_length]
    simp only [Nat.add_assoc]
  rw [endAt] at branch
  rw [endAt, stepHere, lies_followedBy, stepAt, lies_append] at innerLies
  obtain ⟨roundLies, stepLies, pop, _⟩ := innerLies
  rw [followedBy_length, List.length_append, ← Nat.add_assoc, stepAt, ← Nat.add_assoc] at again
  exact ⟨⟨testLies, branch, roundLies⟩, stepLies, pop, again⟩

section Tested

variable (tests : CodeDelivers host perform site memory (.expression test) (.values [value]) tested)

include tests

theorem delivers_cycleEnds (falsy : value.isTruthy = false) :
    CodeDelivers host perform site memory (.cycle test step contents) (.values []) tested := by
  intro around place start data calls lies stands
  obtain ⟨placed, _⟩ := placed_cycle lies
  exact reaches_behindLoop tests placed stands falsy

theorem delivers_cycleRound (truthy : value.isTruthy = true)
    (ran : CodeDelivers host perform site tested (.round contents) round between)
    (ends : round.endsRound = true)
    (rest : CodeDelivers host perform site between (.steps test step contents) outcome after) :
    CodeDelivers host perform site memory (.cycle test step contents) outcome after := by
  intro around place start data calls lies stands
  obtain ⟨placed, _⟩ := placed_cycle lies
  have entered := reaches_round tests placed stands truthy
  have onward := reaches_nextRound ran ends placed.roundLies stands
    (by rw [stepStart_eq]; exact reaches_refl _)
  exact (rest lies stands).behind (entered.trans onward) beside_refl

theorem delivers_cycleLeft (truthy : value.isTruthy = true)
    (ran : CodeDelivers host perform site tested (.round contents)
      (.interrupted (.leaves .leaveLoop)) after) :
    CodeDelivers host perform site memory (.cycle test step contents) (.values []) after := by
  intro around place start data calls lies stands
  obtain ⟨placed, _⟩ := placed_cycle lies
  exact reaches_broken tests placed stands truthy ran

theorem delivers_cycleStops {stop : Stop} (truthy : value.isTruthy = true)
    (ran : CodeDelivers host perform site tested (.round contents) (.interrupted (.stops stop))
      after) :
    CodeDelivers host perform site memory (.cycle test step contents) (.interrupted (.stops stop))
      after := by
  intro around place start data calls lies stands
  obtain ⟨placed, _⟩ := placed_cycle lies
  exact fails_inRound tests placed stands truthy ran

end Tested

theorem delivers_stepDone
    (steps : CodeDelivers host perform site memory (.expression step) (.values [value]) between)
    (rest : CodeDelivers host perform site between (.cycle test step contents) outcome after) :
    CodeDelivers host perform site memory (.steps test step contents) outcome after := by
  intro around place start data calls lies stands
  obtain ⟨_, stepLies, pop, again⟩ := placed_cycle lies
  let loop : Around := ⟨Exit.towards (start + (cycleCode place test step contents).length)
    (stepStart place start test step contents), data, site.scopes⟩
  have stepPlaced : Placed site (some loop) (stepStart place start test step contents)
      (step.form.code place.inLoop) := stepLies
  have stepped := steps.reaches stepPlaced (stands.inRound _)
  have back := (stepped.trans (reaches_pop pop)).trans (reaches_jump again)
  exact (rest lies stands).behind back beside_refl

theorem delivers_stepAgain
    (steps : CodeDelivers host perform site memory (.expression step)
      (.interrupted (.leaves .nextRound)) between)
    (rest : CodeDelivers host perform site between (.steps test step contents) outcome after) :
    CodeDelivers host perform site memory (.steps test step contents) outcome after := by
  intro around place start data calls lies stands
  obtain ⟨_, stepLies, _⟩ := placed_cycle lies
  exact (rest lies stands).behind (reaches_exit steps stepLies stands) beside_refl

theorem delivers_stepLeft
    (steps : CodeDelivers host perform site memory (.expression step)
      (.interrupted (.leaves .leaveLoop)) after) :
    CodeDelivers host perform site memory (.steps test step contents) (.values []) after := by
  intro around place start data calls lies stands
  obtain ⟨_, stepLies, _⟩ := placed_cycle lies
  exact reaches_exit steps stepLies stands

theorem delivers_stepStops {stop : Stop}
    (steps : CodeDelivers host perform site memory (.expression step) (.interrupted (.stops stop))
      after) :
    CodeDelivers host perform site memory (.steps test step contents) (.interrupted (.stops stop))
      after := by
  intro around place start data calls lies stands
  obtain ⟨_, stepLies, _⟩ := placed_cycle lies
  exact fails_inLoop steps stepLies stands

end Cycle

/-! The scope of a loop with a step. -/

section For

variable {begin : Expression} {ref : ScopeRef}

theorem placed_for (lies : Placed site around start
      (Task.code place (.expression (.forLoop begin test step contents)))) :
    site.function.code[start]? = some .openScope ∧
      Placed site around (start + 1) (begin.form.code place.inScope) ∧
      site.function.code[start + 1 + (begin.form.code place.inScope).length]? = some .pop ∧
      Placed site around (start + 1 + (begin.form.code place.inScope).length + 1)
        (cycleCode place.inScope test step contents) ∧
      site.function.code[start + 1 + (begin.form.code place.inScope).length + 1 +
        (cycleCode place.inScope test step contents).length]? = some .closeScope ∧
      site.function.code[start + 1 + (begin.form.code place.inScope).length + 1 +
        (cycleCode place.inScope test step contents).length + 1]? = some (.push .nil) ∧
      start + (Task.code place (.expression (.forLoop begin test step contents))).length =
        start + 1 + (begin.form.code place.inScope).length + 1 +
          (cycleCode place.inScope test step contents).length + 1 + 1 := by
  have shape : Task.code place (.expression (.forLoop begin test step contents)) =
      Code.followedBy [.openScope] (Code.followedBy (begin.form.code place.inScope ++ [.pop])
        (cycleCode place.inScope test step contents)) ++ [.closeScope, .push .nil] := by
    rw [Task.code, Expression.form, Form.code, concat_three]
    rfl
  rw [shape] at lies ⊢
  simp only [Placed, lies_append, lies_followedBy, lies_cons, followedBy_length, List.length_append,
    List.length_singleton, ← Nat.add_assoc] at lies
  obtain ⟨⟨⟨opens, _⟩, ⟨beginLies, pop, _⟩, cycleLies⟩, closes, done, _⟩ := lies
  refine ⟨opens, beginLies, pop, cycleLies, closes, done, ?_⟩
  simp only [List.length_append, followedBy_length, List.length_cons, ← Nat.add_assoc]
  rfl

variable (opened : memory.store.newScope (.empty "let" false) = (ref, store))

include opened

theorem delivers_forStart
    (begins : CodeDelivers host perform (site.inScope ref) (memory.withStore store)
      (.expression begin) (.interrupted way) after) :
    CodeDelivers host perform site memory (.expression (.forLoop begin test step contents))
      (.interrupted way) after := by
  intro around place start data calls lies stands
  obtain ⟨opens, beginLies, _⟩ := placed_for lies
  have inner := begins beginLies (stands.inScope ref)
  exact (inner.behind (reaches_openScope opens opened) ⟨rfl, rfl⟩).interrupted

variable (begins : CodeDelivers host perform (site.inScope ref) (memory.withStore store)
  (.expression begin) (.values [value]) between)

include begins

theorem delivers_forEnds
    (cycles : CodeDelivers host perform (site.inScope ref) between (.cycle test step contents)
      (.values []) after) :
    CodeDelivers host perform site memory (.expression (.forLoop begin test step contents))
      (.values [.nil]) after := by
  intro around place start data calls lies stands
  obtain ⟨opens, beginLies, pop, cycleLies, closes, done, finish⟩ := placed_for lies
  have notLast : site.scopes ≠ [] :=
    List.ne_nil_of_length_pos (Nat.lt_of_le_of_lt (Nat.zero_le _) stands.scopes)
  have inScope := stands.inScope ref
  have begun := (begins.reaches beginLies inScope).trans (reaches_pop pop)
  have entered := (reaches_openScope opens opened).trans begun
  have cycled := entered.trans (cycles cycleLies inScope)
  rw [finish]
  exact (cycled.trans (reaches_closeScope site closes notLast)).trans (reaches_push done)

theorem delivers_forInterrupted
    (cycles : CodeDelivers host perform (site.inScope ref) between (.cycle test step contents)
      (.interrupted way) after) :
    CodeDelivers host perform site memory (.expression (.forLoop begin test step contents))
      (.interrupted way) after := by
  intro around place start data calls lies stands
  obtain ⟨opens, beginLies, pop, cycleLies, _⟩ := placed_for lies
  have inScope := stands.inScope ref
  have begun := (begins.reaches beginLies inScope).trans (reaches_pop pop)
  have entered := (reaches_openScope opens opened).trans begun
  exact ((cycles cycleLies inScope).behind entered ⟨rfl, rfl⟩).interrupted

end For

end StackLisp.Machine
