import StackLisp.Proofs.Machine.Twins
import StackLisp.Proofs.Reader.Whole

/-!
Clearing the stacks recovers an interpreter, whatever code it has executed. Code of any making may
leave scopes open, jump anywhere and return where nothing was called; still the global scope stays below
all others, calls and runs are nested no deeper than they may be, and every run puts the depth of runs
back to where it was.
-/

namespace StackLisp

structure World.Unbroken (world : World) : Prop where
  global : world.env.scopes.elements.getLast? = some Store.global
  frames : ∀ frame ∈ world.env.calls.elements, 1 ≤ frame.scopeDepth
  calls : world.env.calls.size ≤ world.config.maxCallDepth
  nesting : world.env.nesting ≤ world.config.maxNesting

instance (world : World) : Decidable world.Unbroken :=
  decidable_of_iff
    (world.env.scopes.elements.getLast? = some Store.global ∧
      (∀ frame ∈ world.env.calls.elements, 1 ≤ frame.scopeDepth) ∧
      world.env.calls.size ≤ world.config.maxCallDepth ∧
      world.env.nesting ≤ world.config.maxNesting)
    ⟨fun ⟨global, frames, calls, nesting⟩ => ⟨global, frames, calls, nesting⟩,
      fun ⟨global, frames, calls, nesting⟩ => ⟨global, frames, calls, nesting⟩⟩

def World.Listening (world : World) : Prop :=
  ∀ reader, world.env.reader = some reader → reader.stopped = false

namespace World

variable {writes : Store.Writes} {world after : World}

theorem Becomes.config (becomes : world.Becomes writes after) : after.config = world.config := by
  induction becomes with
  | trans _ _ ihFirst ihSecond => exact ihSecond.trans ihFirst
  | inside _ _ _ ih => exact ih
  | elsewhere _ _ ih => exact ih
  | aside _ ih => exact ih
  | _ => rfl

theorem Becomes.nesting (becomes : world.Becomes writes after) :
    after.env.nesting = world.env.nesting := by
  induction becomes with
  | trans _ _ ihFirst ihSecond => exact ihSecond.trans ihFirst
  | _ => rfl

theorem unbroken_fresh (config : Config) (store : Store) (journal : Journal) {nesting : Nat}
    (room : nesting ≤ config.maxNesting) :
    World.Unbroken ⟨config, store, { Env.fresh with nesting }, journal⟩ :=
  ⟨rfl, fun _ member => (List.not_mem_nil member).elim, Nat.zero_le _, room⟩

theorem Unbroken.scopes_pos (unbroken : world.Unbroken) : 1 ≤ world.env.scopes.size := by
  rw [world.env.scopes.size_eq]
  exact List.length_pos_of_mem (List.mem_of_getLast? unbroken.global)

theorem elements_of_pop? {α : Type} {stack rest : Stack α} {element : α}
    (popped : stack.pop? = some (element, rest)) :
    stack.elements = element :: rest.elements := by
  obtain ⟨elements, size, sizeEq⟩ := stack
  cases elements with
  | nil => cases popped
  | cons first others =>
      cases popped
      rfl

theorem getLast?_drop {α : Type} (list : List α) {count : Nat} (short : count < list.length) :
    (list.drop count).getLast? = list.getLast? := by
  rw [List.getLast?_drop, if_neg (Nat.not_le_of_lt short)]

theorem Unbroken.truncate (unbroken : world.Unbroken) {height : Nat} (some : 1 ≤ height) :
    (world.env.scopes.truncate height).elements.getLast? = .some Store.global := by
  have positive := unbroken.scopes_pos
  rw [Stack.truncate, Stack.drop, getLast?_drop _ (by rw [← world.env.scopes.size_eq]; omega)]
  exact unbroken.global

theorem Unbroken.push (unbroken : world.Unbroken) (ref : ScopeRef) :
    (world.env.scopes.push ref).elements.getLast? = some Store.global := by
  rw [Stack.push, List.getLast?_cons, unbroken.global]
  rfl

theorem Becomes.unbroken (becomes : world.Becomes writes after) (unbroken : world.Unbroken) :
    after.Unbroken := by
  induction becomes with
  | refl => exact unbroken
  | trans _ _ ihFirst ihSecond => exact ihSecond (ihFirst unbroken)
  | stored | told | placed | heard =>
      exact ⟨unbroken.global, unbroken.frames, unbroken.calls, unbroken.nesting⟩
  | @opened world ref =>
      exact ⟨unbroken.push ref, unbroken.frames, unbroken.calls, unbroken.nesting⟩
  | @closed world more =>
      refine ⟨?_, unbroken.frames, unbroken.calls, unbroken.nesting⟩
      rw [world.env.scopes.size_eq] at more
      exact (getLast?_drop _ more).trans unbroken.global
  | @entered world frame ref room depth =>
      have scopes := unbroken.scopes_pos
      refine ⟨unbroken.push ref, fun other member => ?_, room, unbroken.nesting⟩
      rcases List.mem_cons.mp member with rfl | pending
      · omega
      · exact unbroken.frames other pending
  | @returned world frame calls popped =>
      have pending := elements_of_pop? popped
      have depth : 1 ≤ frame.scopeDepth := unbroken.frames frame (by simp [pending])
      refine ⟨unbroken.truncate depth, fun other member => ?_, ?_, unbroken.nesting⟩
      · exact unbroken.frames other (by simp [pending, member])
      · have fewer : calls.size + 1 = world.env.calls.size := by
          rw [calls.size_eq, world.env.calls.size_eq, pending, List.length_cons]
        have bound := unbroken.calls
        simp only at bound ⊢
        omega
  | @cleared world =>
      exact ⟨unbroken.truncate (Nat.le_refl 1), fun _ member => (List.not_mem_nil member).elim,
        Nat.zero_le _, unbroken.nesting⟩
  | @inside world after function room becomes ih =>
      -- The inner run is on the same stacks, one level deeper; only the level is put back after it.
      have inner : (Machine.inner function world).Unbroken :=
        ⟨unbroken.global, unbroken.frames, unbroken.calls, room⟩
      obtain ⟨global, frames, calls, _⟩ := ih inner
      refine ⟨global, frames, calls, ?_⟩
      have config : after.config = world.config := becomes.config
      exact config ▸ unbroken.nesting
  | @elsewhere world after nesting room becomes _ | @aside world after becomes _ =>
      have config : after.config = world.config := becomes.config
      refine ⟨unbroken.global, unbroken.frames, ?_, ?_⟩
      · exact config ▸ unbroken.calls
      · exact config ▸ unbroken.nesting

theorem Becomes.listening (becomes : world.Becomes writes after) (listening : world.Listening) :
    after.Listening := by
  induction becomes with
  | trans _ _ ihFirst ihSecond => exact ihSecond (ihFirst listening)
  | @heard world reader same =>
      intro next found
      rw [same next found]
      cases before : world.env.reader with
      | none => rfl
      | some earlier => exact listening earlier before
  | inside _ _ _ ih => exact ih listening
  | _ => exact listening

end World

/-- The states that come up from this one on: of the interpreter itself, of runs inside, and of
interpreters apart. -/
inductive World.Moment (world : World) : World → Prop
  | now : Moment world world
  | moved {seen after : World} : Moment world seen → seen.Becomes .all after → Moment world after
  | inside {seen : World} (function : Function) : Moment world seen →
    seen.env.nesting < seen.config.maxNesting → Moment world (Machine.inner function seen)
  | apart {seen : World} {nesting : Nat} : Moment world seen → nesting ≤ seen.config.maxNesting →
    Moment world { seen with env := { Env.fresh with nesting } }

theorem World.Moment.config {world seen : World} (moment : world.Moment seen) :
    seen.config = world.config := by
  induction moment with
  | now => rfl
  | moved _ becomes ih => exact becomes.config.trans ih
  | inside _ _ _ ih => exact ih
  | apart _ _ ih => exact ih

/-- A new interpreter in the place of the present one, nested in as many runs. -/
def World.anew (world : World) : World :=
  { world with env := { Env.fresh with nesting := world.env.nesting } }

theorem World.anew_env {world : World} (outside : world.env.nesting = 0) :
    world.anew.env = .fresh := by
  rw [anew, outside]
  rfl

namespace Machine

def Law.unbroken : Law where
  holds := fun world => world.Unbroken ∧ world.Listening
  kept := fun held becomes => ⟨becomes.unbroken held.1, becomes.listening held.2⟩
  inner := fun _ ⟨unbroken, listening⟩ room =>
    ⟨⟨unbroken.global, unbroken.frames, unbroken.calls, room⟩, listening⟩
  apart := fun _ room => ⟨World.unbroken_fresh _ _ _ room, nofun⟩

def Law.moments (world : World) : Law := ⟨world.Moment, .moved, fun function => .inside function, .apart⟩

theorem Law.moment (law : Law) {world seen : World} (held : law.holds world)
    (moment : world.Moment seen) : law.holds seen := by
  induction moment with
  | now => exact held
  | moved _ becomes ih => exact law.kept ih becomes
  | inside function _ room ih => exact law.inner function ih room
  | apart _ room ih => exact law.apart ih room

theorem Acts.atMoments {host : Host} {hears : Prop} {α : Type} {holds : World → Prop}
    [DecidablePred holds] (hosted : host.Acts .all hears) {body : Perform → Machine α}
    (acts : Acts .all hears body) {world : World}
    (always : ∀ seen, world.Moment seen → holds seen) (fuel : Nat) (alarm : Stop) :
    body (guardedPerform holds alarm host fuel) world = body (perform host fuel) world := by
  have guarded : ∀ request, Twins (.moments world) True
      (guardedPerform holds alarm host fuel request) (perform host fuel request) :=
    twins_guardedPerform (always _) (fun key name arguments => (hosted key name arguments).heard)
      alarm fuel
  exact ((acts.heard.twins guarded).alike world world .now (.refl world)).eq

theorem duplicate_apply (world : World) :
    ∃ journal, Interpreter.duplicate world = .ok .fresh { world with journal } := by
  obtain ⟨journal, logged⟩ := log_apply .debug (fun _ => "duplicating environment") world
  exact ⟨journal, by rw [Interpreter.duplicate, logDuplicate, bind_apply, logged]; rfl⟩

theorem clear_unbroken {world : World} (unbroken : world.Unbroken) :
    lastState Interpreter.clear world = world.anew.reading world.env.reader := by
  have scopes : world.env.scopes.truncate 1 = Stack.empty.push Store.global :=
    stack_eq (Stack.elements_truncate_one unbroken.global)
  have shape : world.env.clear =
      { Env.fresh with nesting := world.env.nesting, reader := world.env.reader } := by
    simp only [Env.clear, Env.fresh, scopes]
  exact congrArg (fun env => ({ world with env } : World)) shape

end Machine

structure Member where
  env : Env
  depth : Nat

/-- Interpreters of one family share all but their stacks and their readers. -/
structure Family where
  config : Config
  store : Store
  journal : Journal
  members : List Member

namespace Family

open Machine

def seen (family : Family) (env : Env) : World :=
  ⟨family.config, family.store, env, family.journal⟩

def start (config : Config) : Family :=
  let world := Interpreter.fresh config
  ⟨world.config, world.store, world.journal, [⟨world.env, 0⟩]⟩

def moved (family : Family) (place depth : Nat) (world : World) (made : List Member) : Family :=
  ⟨family.config, world.store, world.journal, family.members.set place ⟨world.env, depth⟩ ++ made⟩

inductive Made (seen : World) : Member → Prop
  | copied : Made seen ⟨seen.env.copy, seen.env.nesting⟩
  | duplicated {twin : Env} {after : World} :
    Interpreter.duplicate seen = .ok twin after → Made seen ⟨twin, 0⟩

/-- What a family can come to: its members do whatever they offer, in any order, and are copied and
duplicated at any moment, between their runs and within them. -/
inductive Reached (host : Host) : Family → Prop
  | start (config : Config) : Reached host (start config)
  | moved {family : Family} {place : Nat} {member : Member} {α : Type} {body : Perform → Machine α}
    {made : List Member} (fuel : Nat) : Reached host family → family.members[place]? = some member →
    Acts .all True body →
    (∀ other ∈ made, ∃ seen : World, (family.seen member.env).Moment seen ∧ Made seen other) →
    Reached host (family.moved place member.depth
      (lastState (body (perform host fuel)) (family.seen member.env)) made)

structure Sane (config : Config) (member : Member) : Prop where
  unbroken : ∀ store journal, World.Unbroken ⟨config, store, member.env, journal⟩
  listening : ∀ reader, member.env.reader = some reader → reader.stopped = false
  depth : member.env.nesting = member.depth

variable {host : Host} {hears : Prop} {family : Family} {member : Member}

theorem sane_fresh (config : Config) : Sane config ⟨.fresh, 0⟩ :=
  ⟨fun store journal => World.unbroken_fresh config store journal (Nat.zero_le _), nofun, rfl⟩

theorem Sane.moment (sane : Sane family.config member) {seen : World}
    (moment : (family.seen member.env).Moment seen) : Law.unbroken.holds seen :=
  Law.unbroken.moment ⟨sane.unbroken _ _, sane.listening⟩ moment

theorem Sane.becomes (sane : Sane family.config member) {after : World}
    (becomes : (family.seen member.env).Becomes .all after) :
    Sane family.config ⟨after.env, member.depth⟩ := by
  obtain ⟨⟨global, frames, calls, nesting⟩, listening⟩ := sane.moment (.moved .now becomes)
  rw [becomes.config] at calls nesting
  exact ⟨fun _ _ => ⟨global, frames, calls, nesting⟩, listening, becomes.nesting.trans sane.depth⟩

theorem Sane.made (sane : Sane family.config member) {seen : World} {other : Member}
    (moment : (family.seen member.env).Moment seen) (made : Made seen other) :
    Sane family.config other := by
  have config : seen.config = family.config := moment.config
  cases made with
  | copied =>
      obtain ⟨⟨global, frames, calls, nesting⟩, _⟩ := sane.moment moment
      rw [config] at calls nesting
      exact ⟨fun _ _ => ⟨global, frames, calls, nesting⟩, nofun, rfl⟩
  | @duplicated twin after made =>
      obtain ⟨journal, duplicated⟩ := duplicate_apply seen
      rw [duplicated] at made
      cases made
      exact sane_fresh family.config

theorem Reached.sane (hosted : host.Acts .all hears) (reached : family.Reached host) :
    ∀ member ∈ family.members, Sane family.config member := by
  induction reached with
  | start config =>
      intro member isOnly
      obtain rfl := List.mem_singleton.mp isOnly
      exact sane_fresh config
  | @moved family place member α body made fuel _ found acts madeOf ih =>
      have sane := ih member (List.mem_of_getElem? found)
      intro other isMember
      rcases List.mem_append.mp isMember with old | new
      · rcases List.mem_or_eq_of_mem_set old with untouched | rfl
        · exact ih other untouched
        · exact sane.becomes (acts.behaves (behaves_perform hosted fuel) _)
      · obtain ⟨seen, moment, made⟩ := madeOf other new
        exact sane.made moment made

end Family

namespace Interpreter

open Machine

theorem readText_anew {world : World} (listening : world.Listening) (text : String) :
    readText text world = readText text (world.reading none) := by
  have running : (world.env.reader.getD .start).stopped = false := by
    cases before : world.env.reader with
    | none => rfl
    | some reader => exact listening reader before
  have anew : ((world.reading none).env.reader.getD .start).stopped = false := rfl
  rw [readText_apply text world running, readText_apply text _ anew]
  rfl

section Clear

variable {host : Host} {hears : Prop} {family : Family} {member : Member}

/-- Whatever was done with the interpreters of a family, and however it ended: each of them is nested in
the runs that it was made in, and in no others, and the shape of the stacks holds at every moment of all
that it does next. When it is cleared at such a moment, nothing but the reader tells it from a new
interpreter that is nested in as many runs, which is a duplicate if these are none; and it evaluates
texts as that does, and where the reader is not heard, or there is none, it does all else as that does. -/
theorem clear_recovers (hosted : host.Acts .all hears) (reached : family.Reached host)
    (isMember : member ∈ family.members) :
    let world := family.seen member.env
    world.env.nesting = member.depth ∧
      (∀ {α : Type} (body : Perform → Machine α), Acts .all hears body → ∀ fuel alarm,
        body (guardedPerform World.Unbroken alarm host fuel) world = body (perform host fuel) world ∧
          (lastState (body (perform host fuel)) world).env.nesting = member.depth) ∧
      ∀ seen : World, world.Moment seen →
        let cleared := lastState clear seen
        seen.Unbroken ∧ cleared = seen.anew.reading seen.env.reader ∧
          (seen.env.nesting = 0 →
            ∃ journal, duplicate seen = .ok seen.anew.env { seen with journal }) ∧
          (∀ text fuel, evalText host fuel text cleared = evalText host fuel text seen.anew) ∧
          (∀ {α : Type} (body : Perform → Machine α), Acts .all hears body →
            (hears → seen.env.reader = none) → ∀ fuel,
              Alike hears (body (perform host fuel) cleared) (body (perform host fuel) seen.anew)) := by
  intro world
  have sane := reached.sane hosted member isMember
  have always (seen : World) (moment : world.Moment seen) : seen.Unbroken := (sane.moment moment).1
  refine ⟨sane.depth, fun body acts fuel alarm => ⟨acts.atMoments hosted always fuel alarm, ?_⟩,
    fun seen moment => ?_⟩
  · exact (acts.behaves (behaves_perform hosted fuel) world).nesting.trans sane.depth
  · intro cleared
    obtain ⟨unbroken, listening⟩ := sane.moment moment
    have same : cleared = seen.anew.reading seen.env.reader := clear_unbroken unbroken
    refine ⟨unbroken, same, fun outside => ?_, fun text fuel => ?_, fun body acts unheard fuel => ?_⟩
    · rw [World.anew_env outside]
      exact duplicate_apply seen
    · have listens : World.Listening (seen.anew.reading seen.env.reader) := listening
      have read : readText text cleared = readText text seen.anew := by
        rw [same]
        exact readText_anew listens text
      rw [evalText, bind_apply, read, ← bind_apply, ← evalText]
    · have twins := acts.twins (twins_perform hosted fuel)
      have twin : cleared.Twin hears seen.anew := by
        rw [same]
        exact ⟨none, rfl, fun heard => (unheard heard).symm⟩
      exact twins.alike cleared seen.anew trivial twin

/-- A function that opens scopes and jumps out of its code leaves them open, and its call pending; and a
copy that is made inside of a run stays nested in it when it is cleared. -/
theorem clear_recovers_unbalanced :
    let start := Family.start ⟨10000, 32, false, false, false⟩
    let body : Perform → Machine Value := fun perform => do
      let code := #[.openScope, .openScope, .jump 99]
      let ref ← onStore fun store => store.newFunction ⟨"astray", .compiled [] none code []⟩
      bindGlobal "astray" (.function ref)
      let _ ← attempt (readLine "(+ 1")
      perform (.apply (← lookup "astray") [])
    let world := start.seen .fresh
    let left := lastState (body (perform .none 9)) world
    let copy := (inner Env.idle world).env.copy
    let family := start.moved 0 0 left [⟨copy, 1⟩]
    Host.none.Acts .all True ∧ family.Reached .none ∧ ⟨left.env, 0⟩ ∈ family.members ∧
      (left.env.scopes.size, left.env.calls.size) = (4, 1) ∧ left.env.reader.isSome ∧
      lastState clear (family.seen left.env) =
        (family.seen left.env).anew.reading left.env.reader ∧
      ⟨copy, 1⟩ ∈ family.members ∧ copy.nesting = 1 ∧
      lastState clear (family.seen copy) = (family.seen copy).anew.reading copy.reader := by
  intro start body world left copy family
  have hosted : Host.none.Acts .all True := fun _ _ _ => .result _
  have acts : Acts .all True body := by
    refine .andThen (.change fun store => store.develops_newFunction _) fun ref => ?_
    refine (acts_bindGlobal fun _ _ => trivial).andThen fun _ => ?_
    refine (acts_readLine trivial _).attempted.andThen fun _ => ?_
    exact (acts_lookup "astray").andThen fun function => .request _
  have copied : ∀ other ∈ [(⟨copy, 1⟩ : Member)], ∃ seen : World,
      world.Moment seen ∧ Family.Made seen other := by
    intro other isOnly
    obtain rfl := List.mem_singleton.mp isOnly
    exact ⟨inner Env.idle world, .inside _ .now (by decide), .copied⟩
  have starts : start.Reached .none := .start _
  have found : start.members[0]? = some ⟨.fresh, 0⟩ := rfl
  have moved := starts.moved 9 found acts copied
  have reached : family.Reached .none := moved
  have shape : (left.env.scopes.size, left.env.calls.size) = (4, 1) ∧ left.env.reader.isSome := by
    decide +kernel
  -- From here on, the state that is left need not be computed.
  clear_value left
  have first : ⟨left.env, 0⟩ ∈ family.members := List.mem_cons_self
  have second : ⟨copy, 1⟩ ∈ family.members := List.mem_cons_of_mem _ List.mem_cons_self
  obtain ⟨_, _, recovers⟩ := clear_recovers hosted reached first
  obtain ⟨_, alone, _⟩ := recovers _ .now
  obtain ⟨depth, _, clones⟩ := clear_recovers hosted reached second
  obtain ⟨_, nested, _⟩ := clones _ .now
  exact ⟨hosted, reached, first, shape.1, shape.2, alone, second, depth, nested⟩

/-- What was left unfinished by a line is left by clearing as well, and the next line goes on with it,
which it does not in a new interpreter. And a native function that clears a copy of its interpreter
finds the copy nested in the run that it was made in. -/
theorem clear_leaves_input_and_nesting :
    let start := fresh ⟨10000, 32, false, false, false⟩
    let left := lastState (do let _ ← readLine "(+ 1"; clear : Machine Unit) start
    let next : Machine Value := do evalValues .none 99 (← readLine "2)")
    let probe : Host := ⟨fun _ _ _ _ => do
      inEnv (← currentEnv).copy do
        clear
        return .value (.int (.ofNat (← currentEnv).nesting))⟩
    let probed : Machine String := do
      addNative "probe" (.hosted 0) .any false
      let value ← evalText probe 99 "(map (fn [x] (probe)) [1])"
      readStore fun store => store.text value
    (attempt next).run' left = some (.ok (.int 3)) ∧
      (attempt next).run' { left with env := .fresh } =
        some (.error (.parse 1 (.unexpected ")"))) ∧
      probed.run' start = some "[1]" := by
  decide +kernel

end Clear

end Interpreter

end StackLisp
