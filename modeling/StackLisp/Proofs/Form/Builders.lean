import StackLisp.Proofs.Machine.Foretold
import StackLisp.Proofs.Store.Bindings
import StackLisp.Proofs.Symbol.Identity

/-!
Calls whose arguments stay unevaluated. Which names head such calls is told by a set of symbols beside
the global scope. The registration of a function keeps the two in step; a program or a host that binds
the name to something else does not touch the set.
-/

namespace StackLisp

namespace Store

def builds (store : Store) : Value → Bool
  | .function ref => (store.function ref).isBuilder
  | _ => false

def hasMade (store : Store) : Value → Bool
  | .function ref => decide (ref < store.functions.size)
  | _ => true

def bindsBuilder (store : Store) (id : Nat) : Bool :=
  ((store.scope global).lookup id).any store.builds

/-- What may be bound to a symbol in the global scope, so that its calls are still read in the right
way: a builder if it is in the set, and no builder otherwise. -/
def Suits (id : Nat) : Writes := fun store ref symbol value =>
  ref = global → symbol.id = id →
    store.hasMade value = true ∧ store.isBuilder id = store.builds value

instance (id : Nat) (store : Store) (ref : ScopeRef) (symbol : Symbol) (value : Value) :
    Decidable (Suits id store ref symbol value) :=
  inferInstanceAs (Decidable (ref = global → symbol.id = id →
    store.hasMade value = true ∧ store.isBuilder id = store.builds value))

structure Matches (id : Nat) (store : Store) : Prop where
  hasGlobal : global < store.scopes.size
  made : ∀ value, (store.scope global).lookup id = some value → store.hasMade value = true
  builder : store.isBuilder id = store.bindsBuilder id

section Matches

variable {id : Nat} {store : Store}

theorem builds_newFunction {value : Value} (made : store.hasMade value = true) (function : Function) :
    (store.newFunction function).2.hasMade value = true ∧
      (store.newFunction function).2.builds value = store.builds value := by
  cases value with
  | function ref =>
      have before : ref < store.functions.size := of_decide_eq_true made
      have same : (store.newFunction function).2.function ref = store.function ref := by
        simp [Store.function, newFunction, Array.getD_eq_getD_getElem?, Array.getElem?_push,
          Nat.ne_of_lt before]
      refine ⟨decide_eq_true (before.trans ?_), ?_⟩
      · simp [newFunction]
      · rw [builds, builds, same]
  | _ => exact ⟨rfl, rfl⟩

theorem isBuilder_addFunction (store : Store) (function : Function) (id : Nat) :
    (store.addFunction function).isBuilder id =
      if (store.intern function.name).1.id = id then function.isBuilder else store.isBuilder id := by
  have left : (store.addFunction function).builders =
      if function.isBuilder then (store.intern function.name).1.id ::
        store.builders.filter (· != (store.intern function.name).1.id)
      else store.builders.filter (· != (store.intern function.name).1.id) := rfl
  rw [isBuilder, left]
  by_cases same : (store.intern function.name).1.id = id
  · cases function.isBuilder <;> simp [same]
  · cases function.isBuilder <;> simp [isBuilder, same, Ne.symm same]

theorem lookup_addFunction (hasGlobal : global < store.scopes.size) (function : Function) (id : Nat) :
    ((store.addFunction function).scope global).lookup id =
      if (store.intern function.name).1.id = id then some (.function store.functions.size)
      else (store.scope global).lookup id := by
  refine (lookup_define_global hasGlobal _ _ _ id).trans ?_
  simp only [true_and]
  rfl

theorem Matches.of_bound {value : Value} (hasGlobal : global < store.scopes.size)
    (bound : (store.scope global).lookup id = some value) (made : store.hasMade value = true)
    (builder : store.isBuilder id = store.builds value) : store.Matches id where
  hasGlobal
  made := by
    intro other is
    obtain rfl := Option.some.inj (bound.symm.trans is)
    exact made
  builder := by rw [builder, bindsBuilder, bound, Option.any_some]

theorem Matches.of_same (held : store.Matches id) {later : Store} (hasGlobal : global < later.scopes.size)
    (bound : (later.scope global).lookup id = (store.scope global).lookup id)
    (more : ∀ value, store.hasMade value = true →
      later.hasMade value = true ∧ later.builds value = store.builds value)
    (builder : later.isBuilder id = store.isBuilder id) : later.Matches id where
  hasGlobal
  made := fun value is => (more value (held.made value (bound ▸ is))).1
  builder := by
    rw [builder, held.builder, bindsBuilder, bindsBuilder, bound]
    cases is : (store.scope global).lookup id with
    | none => rfl
    | some value => exact (more value (held.made value is)).2.symm

theorem Matches.change (held : store.Matches id) {later : Store}
    (change : store.Change (Suits id) later) : later.Matches id := by
  have hasGlobal := held.hasGlobal
  cases change with
  | named | fresh | arrays | records | pointers | marked | expanding =>
      exact ⟨held.hasGlobal, held.made, held.builder⟩
  | made function =>
      exact held.of_same hasGlobal rfl (fun _ made => builds_newFunction made function) rfl
  | opened scope =>
      have same : (store.newScope scope).2.scope global = store.scope global := by
        rw [Store.scope, Store.scope, Array.getD_eq_getD_getElem?, Array.getD_eq_getD_getElem?,
          newScope, Array.getElem?_push_lt hasGlobal, Array.getElem?_eq_getElem hasGlobal]
      refine held.of_same (Nat.lt_of_lt_of_le hasGlobal (by simp [newScope])) (by rw [same]) ?_ rfl
      exact fun value made => ⟨made, rfl⟩
  | @wrote ref symbol value suits =>
      have bound := lookup_define_global hasGlobal ref symbol value id
      have kept : global < (store.define ref symbol value).scopes.size := by simpa [define] using hasGlobal
      by_cases here : ref = global ∧ symbol.id = id
      · obtain ⟨made, builder⟩ := suits here.1 here.2
        rw [if_pos here] at bound
        exact .of_bound kept bound made builder
      · rw [if_neg here] at bound
        exact held.of_same kept bound (fun value made => ⟨made, rfl⟩) rfl
  | registered function =>
      have bound := lookup_addFunction hasGlobal function id
      have set := store.isBuilder_addFunction function id
      have kept : global < (store.addFunction function).scopes.size := by
        simpa [addFunction, newFunction, define, intern] using hasGlobal
      by_cases here : (store.intern function.name).1.id = id
      · rw [if_pos here] at bound set
        have newest : (store.functions.push function).getD store.functions.size .vacant = function := by
          simp
        refine .of_bound kept bound ?_ (set.trans (congrArg Function.isBuilder newest.symm))
        simp [hasMade, addFunction, newFunction, define, intern]
      · rw [if_neg here] at bound set
        exact held.of_same kept bound (fun _ made => builds_newFunction made function) set

theorem matches_empty (id : Nat) : Store.empty.Matches id where
  hasGlobal := Nat.one_pos
  made := by rintro _ ⟨⟩
  builder := rfl

end Matches

end Store

namespace Machine

def Minds (id : Nat) (world : World) : Prop :=
  ∀ instr, nextInstr? world.env = some instr → Permitted (Store.Suits id) world instr

instance (id : Nat) : DecidablePred (Minds id) := fun world =>
  Store.decidableOfSome (nextInstr? world.env) (Permitted (Store.Suits id) world)

end Machine

namespace Interpreter

open Machine

/-- The states that a family of interpreters comes to, where no program and no host binds a name to a
builder, or a name that is bound to a builder to something else, but by registering it. -/
inductive Heeding (host : Host) (id : Nat) : World → Prop
  | fresh (config : Config) : Heeding host id (fresh config)
  | bound {world : World} (name : String) (value : Value) : Heeding host id world →
    Store.Suits id (world.store.intern name).2 Store.global (world.store.intern name).1 value →
    Heeding host id (lastState (bindGlobal name value) world)
  | acts {world : World} {α : Type} {body : Perform → Machine α} (fuel : Nat) :
    Heeding host id world → Acts (Store.Suits id) True body →
    body (guardedPerform (Minds id) .exhausted host fuel) world = body (perform host fuel) world →
    Heeding host id (lastState (body (perform host fuel)) world)
  | switched {world : World} (env : Env) : Heeding host id world →
    Heeding host id { world with env }

section Heeding

variable {host : Host} {hears : Prop} {id : Nat} {world : World}

theorem becomes_bindGlobal {writes : Store.Writes} {name : String} {value : Value}
    (allowed : writes (world.store.intern name).2 Store.global (world.store.intern name).1 value) :
    world.Becomes writes (lastState (bindGlobal name value) world) := by
  refine becomes_bind (.stored (world.store.develops_intern name)) fun symbol after interned => ?_
  cases interned
  exact becomes_tryOnStore (Store.develops_bind _ allowed)

theorem Heeding.matches (hosted : host.Acts (Store.Suits id) hears)
    (heeding : Heeding host id world) : world.store.Matches id := by
  have kept {world after : World} (held : world.store.Matches id)
      (becomes : world.Becomes (Store.Suits id) after) : after.store.Matches id :=
    becomes.develops.keeps (fun held change => held.change change) held
  induction heeding with
  | fresh config =>
      exact (develops_fresh config).keeps (fun held change => held.change change) (Store.matches_empty id)
  | bound name value _ suits ih => exact kept ih (becomes_bindGlobal suits)
  | @acts world α body fuel _ acts same ih =>
      have behaves : ∀ request, Behaves (Store.Suits id)
          (guardedPerform (Minds id) .exhausted host fuel request) :=
        behaves_guardedPerform hosted .exhausted (fun _ instr minds => minds instr) fuel
      have guarded := acts.behaves behaves world
      rw [lastState, same] at guarded
      exact kept ih guarded
  | switched env _ ih => exact ih

/-- As long as a name comes to denote a builder, or ceases to, by registration only, the set of builders
tells whether the global scope binds it to one. So a call with the name at its head is read with its
arguments as they stand if the name denotes a builder, and if it does not, with forms to be
evaluated. -/
theorem builders_in_step (hosted : host.Acts (Store.Suits id) hears)
    (heeding : Heeding host id world) :
    world.store.isBuilder id = world.store.bindsBuilder id ∧
      ∀ again context perform symbol arguments, symbol.id = id →
        Special.ofName? symbol.name = none → world.store.expander? id = none →
        Form.readNamedForm again context perform symbol arguments world =
          if world.store.bindsBuilder id then .ok (.call symbol (arguments.map .constant)) world
          else (do return .call symbol (← Form.readAll again context arguments) : Machine Form)
            world := by
  have builder := (heeding.matches hosted).builder
  refine ⟨builder, fun again context perform symbol arguments named plain unexpanded => ?_⟩
  subst named
  simp only [Form.readNamedForm, plain, bind_apply, readStore_apply, unexpanded, builder]
  split
  · rfl
  · rw [bind_apply]

theorem builders_in_step_program :
    let start := lastState (addNative "host-shape" (.hosted 0) .any true)
      (fresh ⟨10000, 32, false, false, false⟩)
    let late := lastState (evalText .none 30 "(def y 1) (host-shape y)") start
    let symbol := (start.store.intern "host-shape").1
    Host.none.Acts (Store.Suits symbol.id) True ∧ Heeding .none symbol.id late ∧
      Special.ofName? symbol.name = none ∧ late.store.expander? symbol.id = none ∧
      late.store.isBuilder symbol.id = late.store.bindsBuilder symbol.id ∧
      ∀ again perform arguments, Form.readNamedForm again .start perform symbol arguments late =
        .ok (.call symbol (arguments.map .constant)) late := by
  intro start late symbol
  have hosted : Host.none.Acts (Store.Suits symbol.id) True := fun _ _ _ => .result _
  have started : Heeding .none symbol.id start :=
    .acts 0 (.fresh _) (acts_addNative "host-shape" (.hosted 0) .any true) rfl
  let body : Perform → Machine Value := fun perform => do
    perform (.evaluate (← readText "(def y 1) (host-shape y)"))
  have acts : Acts (Store.Suits symbol.id) True body := acts_evalText trivial _
  have ends : ((body (guardedPerform (Minds symbol.id) .exhausted .none 30)).run' start).isSome := by
    decide +kernel
  have same : body (guardedPerform (Minds symbol.id) .exhausted .none 30) start =
      body (perform .none 30) start := by
    refine acts.unguarded hosted _ fun after out => ?_
    delta EStateM.run' EStateM.run at ends
    rw [out] at ends
    cases ends
  have reached := started.acts 30 acts same
  have heeding : Heeding .none symbol.id late := reached
  obtain ⟨plain, unexpanded, binds⟩ : Special.ofName? symbol.name = none ∧
      late.store.expander? symbol.id = none ∧ late.store.bindsBuilder symbol.id = true := by
    decide +kernel
  obtain ⟨builder, reads⟩ := builders_in_step hosted heeding
  refine ⟨hosted, heeding, plain, unexpanded, builder, fun again perform arguments => ?_⟩
  rw [reads again .start perform symbol arguments rfl plain unexpanded, if_pos binds]

end Heeding

/-- A program that binds the name of a builder to a function of its own leaves the name in the set of
builders. So the function is not given the number three, but the list that it is the sum of. -/
theorem builders_left_behind :
    let start := lastState (addNative "host-shape" (.hosted 0) .any true)
      (fresh ⟨10000, 32, false, false, false⟩)
    let late := lastState (evalText .none 30 "(defn host-shape [x] x)") start
    let id := (late.store.intern "host-shape").1.id
    late.store.isBuilder id = true ∧ late.store.bindsBuilder id = false ∧
      (do
        let value ← evalText .none 30 "(host-shape (+ 1 2))"
        readStore fun store => (store.text value, value == .int 3) : Machine (String × Bool)).run' late =
          some ("(+ 1 2)", false) := by
  decide +kernel

end Interpreter

end StackLisp
