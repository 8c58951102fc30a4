import StackLisp.Machine.Step
import StackLisp.Proofs.Machine.Tame
import StackLisp.Proofs.Store.Names

/-!
Native functions that do not look at bindings: the ones that make lists and arrays and join them. They
change the store alone, and that in the same way whatever is bound to what.
-/

namespace StackLisp.Machine

/-- If the computation comes to a value, it has changed nothing but the store, and in the store neither
scopes nor functions; with other scopes it comes to the same. -/
def Blind {α : Type} (body : Machine α) : Prop :=
  ∀ (world : World) (value : α) (after : World), body world = .ok value after →
    ∃ store : Store, after = { world with store } ∧ store.scopes = world.store.scopes ∧
      store.functions = world.store.functions ∧
      ∀ scopes : Array Scope, body { world with store := { world.store with scopes } } =
        .ok value { world with store := { store with scopes } }

section Blind

variable {α β : Type}

theorem blind_pure (value : α) : Blind (pure value) := by
  intro world result after ran
  cases ran
  exact ⟨world.store, rfl, rfl, rfl, fun _ => rfl⟩

theorem Blind.bind {body : Machine α} {later : α → Machine β} (first : Blind body)
    (second : ∀ value, Blind (later value)) : Blind (body >>= later) := by
  intro world result after ran
  rw [bind_apply] at ran
  cases split : body world with
  | error stop between =>
      rw [split] at ran
      cases ran
  | ok value between =>
      rw [split] at ran
      obtain ⟨middle, rfl, scopes, functions, others⟩ := first world value between split
      obtain ⟨store, rfl, scopesLater, functionsLater, othersLater⟩ := second value _ result after ran
      refine ⟨store, rfl, scopesLater.trans scopes, functionsLater.trans functions, fun other => ?_⟩
      rw [bind_apply, others other]
      exact othersLater other

theorem blind_onStore {change : Store → α × Store}
    (scopes : ∀ store, (change store).2.scopes = store.scopes)
    (functions : ∀ store, (change store).2.functions = store.functions)
    (same : ∀ (store : Store) (scopes : Array Scope),
      change { store with scopes } = ((change store).1, { (change store).2 with scopes })) :
    Blind (onStore change) := by
  intro world value after ran
  cases ran
  refine ⟨_, rfl, scopes _, functions _, fun other => ?_⟩
  have changed (before : World) : onStore change before =
      .ok (change before.store).1 { before with store := (change before.store).2 } := rfl
  rw [changed, same]

theorem blind_ask {question : Store → Except Error α}
    (same : ∀ (store : Store) (scopes : Array Scope), question { store with scopes } = question store) :
    Blind (ask question) := by
  intro world value after ran
  have asked (other : World) : ask question other = ofExcept (question other.store) other := rfl
  rw [asked] at ran
  cases answer : question world.store with
  | error cause =>
      rw [answer] at ran
      cases ran
  | ok found =>
      rw [answer] at ran
      cases ran
      refine ⟨world.store, rfl, rfl, rfl, fun scopes => ?_⟩
      rw [asked, same, answer]
      rfl

theorem blind_newList (items : List Value) : Blind (newList items) :=
  blind_onStore (fun _ => rfl) (fun _ => rfl) fun _ _ => rfl

theorem blind_newArray (items : List Value) : Blind (newArray items) :=
  blind_onStore (fun _ => rfl) (fun _ => rfl) fun _ _ => rfl

theorem blind_wrongArgument (native what : String) (value : Value) :
    Blind (Native.wrongArgument native what value : Machine α) := by
  intro world result after ran
  cases ran

theorem blind_allItems (sequences : List Value) : Blind (Native.allItems sequences) := by
  induction sequences with
  | nil => exact blind_pure _
  | cons sequence later ih =>
      have items : Blind (ask fun store => store.sequenceItems sequence) := by
        refine blind_ask fun store scopes => ?_
        cases sequence with
        | array ref => rfl
        | _ => simp only [Store.sequenceItems, Store.listItems, Store.kindOf_scopes]
      exact items.bind fun _ => ih.bind fun _ => blind_pure _

theorem blind_allText (native : String) (texts : List Value) : Blind (Native.allText native texts) := by
  induction texts with
  | nil => exact blind_pure _
  | cons first later ih =>
      cases first with
      | text s => exact ih.bind fun _ => blind_pure _
      | _ => exact blind_wrongArgument _ _ _

theorem blind_concat (native : String) (arguments : List Value) :
    Blind (Native.concat native arguments) := by
  unfold Native.concat
  split
  · exact (blind_allItems _).bind fun items => blind_newList items
  · exact (blind_allItems _).bind fun items => blind_newList items
  · exact (blind_allItems _).bind fun items => blind_newList items
  · exact (blind_allItems _).bind fun items => blind_newArray items
  · exact (blind_allText _ _).bind fun _ => blind_pure _
  · exact blind_wrongArgument _ _ _

end Blind

theorem blind_joining {native : Standard} (joins : native ∈ joining) (host : Host)
    (perform : Perform) (name : String) (arguments : List Value) :
    Blind (callNative host perform name (.standard native) arguments) := by
  simp only [joining, List.mem_cons, List.not_mem_nil, or_false] at joins
  rcases joins with rfl | rfl | rfl
  · exact blind_newList arguments
  · exact blind_newArray arguments
  · exact blind_concat _ arguments

end StackLisp.Machine
