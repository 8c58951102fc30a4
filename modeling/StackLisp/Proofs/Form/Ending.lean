import Mathlib.Tactic.MkIffOfInductiveProp
import StackLisp.Form.Compile
import StackLisp.Interpreter
import StackLisp.Proofs.Form.Nesting
import StackLisp.Proofs.Form.Settling
import StackLisp.Proofs.Machine.Asking

/-!
Compiling comes to an end, if every expansion that is asked for on the way ends, with an error or with a
value that has no cycles, and changes none of the arrays that are compiled. It is not enough that the
values have no cycles when they are made, since an expander may be given an array of the form to compile,
and may put it into itself.
-/

namespace StackLisp.Form

open Machine

def generate (perform : Perform) (room : Nat) (context : Context) (place : Place) (value : Value) :
    Machine Code := do
  return (← read perform room .form context value).code place

theorem generate_congr {perform other : Perform} {room : Nat} {context : Context} {value : Value}
    {world : World} (place : Place)
    (same : read perform room .form context value world = read other room .form context value world) :
    generate perform room context place value world = generate other room context place value world := by
  unfold generate
  rw [bind_apply, bind_apply, same]

/-- From some fuel on a value is compiled to the same code, or refused with the same error. -/
def Generates (host : Host) (context : Context) (place : Place) (value : Value) (world : World) : Prop :=
  ∃ bound outcome, (∀ after, outcome ≠ .error .exhausted after) ∧
    ∀ fuel room, bound ≤ fuel → bound ≤ room →
      generate (perform host fuel) room context place value world = outcome

/-- With enough fuel, all expansions that a value asks for when it is read obey the law. -/
def ExpandsBy (law : Request → World → Prop) (host : Host) (context : Context) (value : Value)
    (world : World) : Prop :=
  ∃ enough, ∀ fuel room, enough ≤ fuel → enough ≤ room →
    AsksOnly law (fun perform => read perform room .form context value) (perform host fuel) world

/-- A value without cycles is compiled to code or refused, whatever the expanders that are registered,
if each expansion that is asked for ends, gives a value without cycles or an error, and leaves the arrays
that are compiled as they are. Of these expansions never more are nested than the limit leaves, the
bodies of functions included. -/
theorem generate_ends (host : Host) (kept : ArrayRef → Prop) (context : Context) (place : Place)
    (value : Value) (world : World) (acyclic : world.store.Acyclic kept value)
    (expand : ExpandsBy (EndsWell kept (perform host)) host context value world) :
    Generates host context place value world ∧
    ∀ overflow fuel room,
      readWithin overflow (perform host fuel) room (Context.expansionLimit - context.expansions) .form
        context value = read (perform host fuel) room .form context value := by
  constructor
  · obtain ⟨enough, asks⟩ := expand
    let refusal : Error := .stackUnderflow
    let careful (fuel : Nat) : Perform := lawful (EndsWell kept (perform host)) refusal (perform host fuel)
    have ends (request : Request) (world : World) : EndsWell kept careful request world :=
      endsBy_lawful (perform host) refusal request world
    have generated : Settles (fun fuel room => generate (careful fuel) room context place value) world
        fun _ _ => True :=
      (settles_read ends acyclic .form context).bind fun _ _ _ => settles_of_run rfl trivial
    obtain ⟨bound, outcome, ended, reached⟩ := generated
    refine ⟨max bound enough, outcome, ?_, fun fuel room le le' => ?_⟩
    · rintro after rfl
      exact ended
    · rw [← reached fuel room (by omega) (by omega)]
      exact (generate_congr place (asks fuel room (by omega) (by omega) refusal)).symm
  · intro overflow fuel room
    exact readWithin_eq overflow (perform host fuel) room (by omega) .form value

/-! Expanders that call one another, and expanders that spoil what is compiled. -/

def evaluated (text : String) : Value × World :=
  match Interpreter.evalText .none 60 text (Interpreter.fresh default) with
  | .ok value world => (value, world)
  | .error _ world => (.nil, world)

def isEnded {α : Type} : EStateM.Result Stop World α → Bool
  | .error .exhausted _ => false
  | _ => true

theorem ne_of_isEnded {α : Type} {outcome : EStateM.Result Stop World α}
    (ended : isEnded outcome = true) (after : World) : outcome ≠ .error .exhausted after := by
  rintro rfl
  cases ended

def isPlain (world : World) (value : Value) (after : World) : Bool :=
  value.arrays.isEmpty && decide (after.store.arrays = world.store.arrays)

theorem good_of_isPlain {kept : ArrayRef → Prop} {world : World} {value : Value} {after : World}
    (plain : isPlain world value after = true) :
    after.store.Acyclic kept value ∧ world.store.Rests kept after.store := by
  simp only [isPlain, Bool.and_eq_true, List.isEmpty_iff, decide_eq_true_eq] at plain
  exact ⟨Store.acyclic_of_arrays plain.1, Store.rests_of_arrays plain.2⟩

def pingPong : Value × World :=
  evaluated "(defmac ping [x] (if x (quote (begin (pong) (ping nil))) 1))
    (defmac pong [] (quote (ping nil))) (quote (ping true))"

theorem generate_ends_mutual :
    pingPong.2.store.Acyclic (fun _ => True) pingPong.1 ∧
      ExpandsBy (EndsWell (fun _ => True) (perform .none)) .none .start pingPong.1 pingPong.2 ∧
      Generates .none .start .start pingPong.1 pingPong.2 := by
  have hosted : Host.none.Acts .all True := fun _ _ _ => .result _
  have checked : (pingPong.1.arrays.isEmpty && isEnded
      (read (trusted isPlain (perform .none 40)) 20 .form .start pingPong.1 pingPong.2)) = true := by
    decide +kernel
  rw [Bool.and_eq_true, List.isEmpty_iff] at checked
  have acyclic : pingPong.2.store.Acyclic (fun _ => True) pingPong.1 := Store.acyclic_of_arrays checked.1
  have expand : ExpandsBy (EndsWell (fun _ => True) (perform .none)) .none .start pingPong.1
      pingPong.2 := by
    have ended := ne_of_isEnded checked.2
    refine ⟨40, fun fuel room enough enough' => ?_⟩
    have le : 20 ≤ room := Nat.le_trans (by decide) enough'
    exact asksOnly_of_trusted hosted (fun _ _ _ => good_of_isPlain) ended enough le
  exact ⟨acyclic, expand, (generate_ends .none _ .start .start _ _ acyclic expand).1⟩

theorem read_expansion {perform : Perform} {room mark : Nat} {context : Context}
    {first rest head expansion : Value} {arguments : List Value} {symbol : Symbol}
    {expander : FunctionRef} {world after : World}
    (items : (Value.pair mark first rest).items? = some (head :: arguments))
    (bindable : bindable? head = some symbol) (ordinary : Special.ofName? symbol.name = none)
    (found : world.store.expander? symbol.id = some expander)
    (below : context.expansions < Context.expansionLimit)
    (expanded : expandWith perform expander arguments world = .ok expansion after) :
    read perform (room + 1) .form context (.pair mark first rest) world =
      read perform room .form context.insideExpansion expansion after := by
  have known : readStore (fun store => store.expander? symbol.id) world = .ok (some expander) world := by
    rw [readStore_apply, found]
  simp only [read, readForm, items, bindable, readNamedForm, ordinary, bind_apply, known,
    Nat.not_le_of_lt below, ↓reduceIte, expanded]

theorem read_special {perform : Perform} {room mark : Nat} {context : Context} {first rest head : Value}
    {arguments : List Value} {symbol : Symbol} {special : Special}
    (items : (Value.pair mark first rest).items? = some (head :: arguments))
    (bindable : bindable? head = some symbol) (named : Special.ofName? symbol.name = some special) :
    read perform (room + 1) .form context (.pair mark first rest) =
      readSpecial (read perform room) context symbol.name special arguments := by
  simp only [read, readForm, items, bindable, readNamedForm, named]

/-- There is no end to the reading of an array that holds itself. -/
theorem read_tied (perform : Perform) (room : Nat) (context : Context) {ref : ArrayRef} {world : World}
    (tied : (world.store.array ref).toList = [.array ref]) :
    read perform room .form context (.array ref) world = .error .exhausted world := by
  induction room with
  | zero => rfl
  | succ room ih =>
      have found : readStore (fun store => (store.array ref).toList) world =
          .ok [.array ref] world := by rw [readStore_apply, tied]
      simp only [read, readForm, bind_apply, found, readAll, List.mapM_cons, ih]

def knotted : Value × World :=
  evaluated "(def a [1]) (defmac knot [x] (aset x 0 x) nil) (list (quote begin) (list (quote knot) a) a)"

@[mk_iff]
structure Knot (value : Value) (ref : ArrayRef) (expander : FunctionRef) (world : World) : Prop where
  value : value = .pair 25 (.symbol ⟨"begin", 56, false⟩) (.pair 26
    (.pair 23 (.symbol ⟨"knot", 53, false⟩) (.pair 24 (.array ref) .nil)) (.pair 27 (.array ref) .nil))
  found : world.store.expander? 53 = some expander
  made : ref < world.store.arrays.size
  items : (world.store.array ref).toList = [.int 1]

def isTied (ref : ArrayRef) : EStateM.Result Stop World Value → Bool
  | .ok value after => decide (value = .nil ∧ (after.store.array ref).toList = [.array ref])
  | .error _ _ => false

theorem exists_of_isTied {ref : ArrayRef} {outcome : EStateM.Result Stop World Value}
    (tied : isTied ref outcome = true) :
    ∃ after, outcome = .ok .nil after ∧ (after.store.array ref).toList = [.array ref] := by
  cases outcome with
  | ok value after =>
      obtain ⟨rfl, items⟩ := of_decide_eq_true tied
      exact ⟨after, rfl, items⟩
  | error => cases tied

section Knot

variable {value : Value} {ref : ArrayRef} {expander : FunctionRef} {world : World}
  (knot : Knot value ref expander world)

include knot

theorem Knot.acyclic : world.store.Acyclic (fun _ => True) value := by
  refine Store.acyclic_of_flat fun inner member => ?_
  obtain rfl : inner = ref := by
    rw [knot.value] at member
    simpa [Value.arrays] using member
  refine ⟨trivial, knot.made, fun item member => ?_⟩
  rw [knot.items, List.mem_singleton] at member
  rw [member]
  rfl

theorem Knot.read_endless {perform : Perform} {after : World} (room : Nat)
    (expanded : expandWith perform expander [.array ref] world = .ok .nil after)
    (tied : (after.store.array ref).toList = [.array ref]) :
    read perform (room + 3) .form .start value world = .error .exhausted after := by
  have first : read perform (room + 2) .form .start
      (.pair 23 (.symbol ⟨"knot", 53, false⟩) (.pair 24 (.array ref) .nil)) world =
        .ok (.constant .nil) after :=
    read_expansion rfl rfl (by decide) knot.found (by decide) expanded
  have second := read_tied perform (room + 2) .start tied
  rw [knot.value, read_special rfl rfl (by decide : Special.ofName? "begin" = some .sequence)]
  simp only [readSpecial, readAll, List.mapM_cons, bind_apply, first, second]

/-- Nothing is asked for but an expansion that ends with an empty list, and yet there is no end. -/
theorem Knot.never_ends {host : Host} {writes : Store.Writes} {hears : Prop}
    (hosted : host.Acts writes hears) {fuel : Nat}
    (checked : isTied ref (expandWith (trusted (fun _ value _ => value.arrays.isEmpty)
      (perform host fuel)) expander [.array ref] world) = true) :
    ExpandsBy (EndsBy (fun _ value after => after.store.Acyclic (fun _ => True) value) (perform host))
        host .start value world ∧
      ¬ Generates host .start .start value world := by
  obtain ⟨after, expanded, tied⟩ := exists_of_isTied checked
  have endless {perform another : Perform} (room : Nat) (enough : 3 ≤ room)
      (serves : ∀ request, Foretells (another request) (perform request))
      (expanded : expandWith another expander [.array ref] world = .ok .nil after) :
      read perform room .form .start value world = .error .exhausted after := by
    obtain ⟨room, rfl⟩ : ∃ left, room = left + 3 := ⟨room - 3, by omega⟩
    refine knot.read_endless room ?_ tied
    refine ((serves _).inNested.of_ended fun out ran => ?_).symm.trans expanded
    cases expanded.symm.trans ran
  have real (more room : Nat) (le : fuel ≤ more) (enough : 3 ≤ room) :
      read (perform host more) room .form .start value world = .error .exhausted after :=
    endless room enough (foretells_trusted _ hosted le) expanded
  constructor
  · refine ⟨max fuel 3, fun more room le le' refusal => ?_⟩
    refine Eq.trans ?_ (real more room (by omega) (by omega)).symm
    refine endless room (by omega) (foretells_lawful hosted ?_ (by omega) refusal) expanded
    exact fun _ _ _ plain => Store.acyclic_of_arrays (List.isEmpty_iff.mp plain)
  · rintro ⟨bound, outcome, ended, reached⟩
    have out : generate (perform host (max bound fuel)) (max bound 3) .start .start value world =
        .error .exhausted after := by
      unfold generate
      rw [bind_apply, real _ _ (by omega) (by omega)]
    rw [reached _ _ (by omega) (by omega)] at out
    exact ended after out

end Knot

instance {value : Value} {ref : ArrayRef} {expander : FunctionRef} {world : World} :
    Decidable (Knot value ref expander world) :=
  decidable_of_iff' _ (knot_iff value ref expander world)

def deeper : Value × World :=
  evaluated "(defmac same [x] x) (defmac now [x] (eval x)) (quote (now (same (same 0))))"

/-- The compiling of a form without cycles may never come to an end, although all expansions that it asks
for end with values without cycles. And where an expander evaluates a form, expansions are counted anew:
inside of the last one that is allowed there are more of them. -/
theorem generate_endless :
    (knotted.2.store.Acyclic (fun _ => True) knotted.1 ∧
      ExpandsBy (EndsBy (fun _ value after => after.store.Acyclic (fun _ => True) value)
        (perform .none)) .none .start knotted.1 knotted.2 ∧
      ¬ Generates .none .start .start knotted.1 knotted.2) ∧
    (generate (perform .none 60) 20 ⟨false, 255⟩ .start deeper.1).run' deeper.2 =
      some [.push (.int 0)] := by
  have hosted : Host.none.Acts .all True := fun _ _ _ => .result _
  have checked : (decide (Knot knotted.1 2 50 knotted.2) && isTied 2
      (expandWith (trusted (fun _ value _ => value.arrays.isEmpty) (perform .none 40)) 50 [.array 2]
        knotted.2)) = true := by
    decide +kernel
  rw [Bool.and_eq_true, decide_eq_true_eq] at checked
  obtain ⟨knot, tied⟩ := checked
  exact ⟨⟨knot.acyclic, knot.never_ends hosted tied⟩, by decide +kernel⟩

end StackLisp.Form
