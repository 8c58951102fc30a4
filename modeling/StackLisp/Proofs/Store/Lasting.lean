import StackLisp.Proofs.Machine.Aligned
import StackLisp.Proofs.Store.Writing

/-!
The kinds that variables keep. A new value is held against the one that the variable has at the time,
and against no other; but kinds stand in for one another transitively, and a value keeps its kind
whatever becomes of the record that it refers to, by all that standard functions and compiled ones do.
So each value of a variable may stand where any earlier one was.
-/

namespace StackLisp

namespace Kind

def hasParts : Kind → Bool
  | .list | .array | .record _ | .function | .pointer _ => true
  | _ => false

theorem assignableTo_iff (source target : Kind) :
    source.assignableTo target = true ↔
      source = target ∨ (source = .int ∧ target = .float) ∨
        (source = .nil ∧ target.hasParts = true) ∨ ∃ name, source = .record name ∧ target = .record "" := by
  cases source <;> cases target <;> simp [assignableTo, hasParts]

theorem assignableTo_refl (kind : Kind) : kind.assignableTo kind = true :=
  (assignableTo_iff kind kind).mpr (.inl rfl)

/-- Floats and untyped records stand for nothing but themselves, and what has parts for nothing that
nil does not stand for. -/
theorem assignableTo_trans {source middle target : Kind} (first : source.assignableTo middle = true)
    (second : middle.assignableTo target = true) : source.assignableTo target = true := by
  rw [assignableTo_iff] at first second ⊢
  rcases first with rfl | ⟨rfl, rfl⟩ | ⟨rfl, parts⟩ | ⟨name, rfl, rfl⟩
  · exact second
  · rcases second with rfl | ⟨isInt, -⟩ | ⟨isNil, -⟩ | ⟨_, isRecord, -⟩
    · exact .inr (.inl ⟨rfl, rfl⟩)
    · cases isInt
    · cases isNil
    · cases isRecord
  · rcases second with rfl | ⟨rfl, -⟩ | ⟨rfl, -⟩ | ⟨_, rfl, rfl⟩
    · exact .inr (.inr (.inl ⟨rfl, parts⟩))
    · cases parts
    · cases parts
    · exact .inr (.inr (.inl ⟨rfl, rfl⟩))
  · rcases second with rfl | ⟨isInt, -⟩ | ⟨isNil, -⟩ | ⟨_, -, rfl⟩
    · exact .inr (.inr (.inr ⟨name, rfl, rfl⟩))
    · cases isInt
    · cases isNil
    · exact .inr (.inr (.inr ⟨name, rfl, rfl⟩))

end Kind

namespace Store

open Machine (lastState)

variable {store later : Store} {ref : ScopeRef} {symbol : Symbol}

structure Spares (ref : ScopeRef) (symbol : Symbol) (store later : Store) : Prop
    extends KeepsTypes store later where
  binding : (later.scope ref).lookup symbol.id = (store.scope ref).lookup symbol.id
  scopes : store.scopes.size ≤ later.scopes.size

/-! Operations on a variable. -/

inductive Operation where
  | bind (value : Value)
  | update (value : Value)

namespace Operation

def value : Operation → Value
  | .bind value => value
  | .update value => value

def run (store : Store) (ref : ScopeRef) (symbol : Symbol) : Operation → Except Error Unit × Store
  | .bind value => store.bind ref symbol value
  | .update value => store.update ref symbol value

theorem run_cases (operation : Operation) (store : Store) (ref : ScopeRef) (symbol : Symbol) :
    operation.run store ref symbol = (.ok (), store.define ref symbol operation.value) ∨
      ∃ error, operation.run store ref symbol = (.error error, store) := by
  cases operation with
  | bind value =>
      simp only [run, Store.bind]
      cases store.checkBind ref symbol value with
      | error error => exact .inr ⟨error, rfl⟩
      | ok _ => exact .inl rfl
  | update value =>
      simp only [run, Store.update]
      cases store.checkUpdate ref symbol value with
      | error error => exact .inr ⟨error, rfl⟩
      | ok _ => exact .inl rfl

theorem run_unbound (operation : Operation) (unbound : (store.scope ref).lookup symbol.id = none) :
    (operation.run store ref symbol).1 = .ok () ↔ operation = .bind operation.value := by
  cases operation with
  | bind value => simp [run, Store.bind, checkBind, unbound, Operation.value]
  | update value => simp [run, Store.update, checkUpdate, unbound]

theorem run_bound (operation : Operation) {old : Value} {oldKind kind : Kind}
    (bound : (store.scope ref).lookup symbol.id = some old)
    (oldLasts : store.lastingKind old = some oldKind)
    (lasts : store.lastingKind operation.value = some kind) :
    (operation.run store ref symbol).1 = .ok () ↔ kind.assignableTo oldKind = true := by
  have checked (value : Value) (valueLasts : store.lastingKind value = some kind) :
      store.checkRebind symbol old value = .ok () ↔ kind.assignableTo oldKind = true := by
    rw [checkRebind, oldLasts, valueLasts]
    cases fits : kind.assignableTo oldKind <;> simp [fits]
  cases operation with
  | bind value =>
      rw [← checked value lasts]
      simp only [run, Store.bind, checkBind, bound]
      cases store.checkRebind symbol old value <;> simp
  | update value =>
      rw [← checked value lasts]
      simp only [run, Store.update, checkUpdate, bound]
      cases store.checkRebind symbol old value <;> simp

end Operation

/-- The values that a variable has held, the present one first, each with the kind that it had when it
was stored. Between two operations on the variable anything may be done beside it. -/
inductive History (ref : ScopeRef) (symbol : Symbol) : Store → List (Value × Kind) → Prop
  | unbound {store : Store} :
    ref < store.scopes.size → (store.scope ref).lookup symbol.id = none → History ref symbol store []
  | bound {store : Store} {value : Value} {kind : Kind} :
    (store.scope ref).lookup symbol.id = some value → store.Places value →
    store.lastingKind value = some kind → History ref symbol store [(value, kind)]
  | stored {store : Store} {past : List (Value × Kind)} {kind : Kind} (operation : Operation) :
    History ref symbol store past → (operation.run store ref symbol).1 = .ok () →
    store.Places operation.value → store.lastingKind operation.value = some kind →
    History ref symbol (operation.run store ref symbol).2 ((operation.value, kind) :: past)
  | refused {store : Store} {past : List (Value × Kind)} {error : Error} (operation : Operation) :
    History ref symbol store past → (operation.run store ref symbol).1 = .error error →
    History ref symbol (operation.run store ref symbol).2 past
  | aside {store later : Store} {past : List (Value × Kind)} :
    History ref symbol store past → Spares ref symbol store later → History ref symbol later past

theorem History.evalText {world : World} {past : List (Value × Kind)}
    (history : History ref symbol world.store past) (host : Host) (fuel : Nat) (text : String)
    (ready : world.Ready)
    (same : ((lastState (Interpreter.evalText host fuel text) world).store.scope ref).lookup symbol.id =
      (world.store.scope ref).lookup symbol.id) :
    History ref symbol (lastState (Interpreter.evalText host fuel text) world).store past := by
  have later := (Interpreter.evalText_deepens host fuel text ready).1.later
  exact history.aside ⟨later.ages.types, same, later.lasts.scopes_le⟩

structure Remembers (ref : ScopeRef) (symbol : Symbol) (store : Store) (past : List (Value × Kind)) :
    Prop where
  inside : ref < store.scopes.size
  present : (store.scope ref).lookup symbol.id = past.head?.map Prod.fst
  placed : ∀ entry ∈ past, store.Places entry.1
  lasting : ∀ entry ∈ past, store.lastingKind entry.1 = some entry.2
  fitting : past.Pairwise fun entry earlier => entry.2.assignableTo earlier.2 = true

def accepts (past : List (Value × Kind)) (operation : Operation) (kind : Kind) : Prop :=
  match past with
  | [] => operation = .bind operation.value
  | present :: _ => kind.assignableTo present.2 = true

namespace Remembers

variable {past : List (Value × Kind)} {operation : Operation} {kind : Kind}

theorem accepted_iff (remembers : Remembers ref symbol store past)
    (lasts : store.lastingKind operation.value = some kind) :
    (operation.run store ref symbol).1 = .ok () ↔ accepts past operation kind := by
  cases past with
  | nil => exact operation.run_unbound remembers.present
  | cons present earlier =>
      exact operation.run_bound remembers.present (remembers.lasting present (by simp)) lasts

theorem aside (remembers : Remembers ref symbol store past) (spares : Spares ref symbol store later) :
    Remembers ref symbol later past where
  inside := Nat.lt_of_lt_of_le remembers.inside spares.scopes
  present := spares.binding.trans remembers.present
  placed := fun entry member => spares.toKeepsTypes.places (remembers.placed entry member)
  lasting := fun entry member =>
    (spares.toKeepsTypes.lastingKind (remembers.placed entry member)).trans (remembers.lasting entry member)
  fitting := remembers.fitting

theorem stored (remembers : Remembers ref symbol store past)
    (accepted : (operation.run store ref symbol).1 = .ok ()) (placed : store.Places operation.value)
    (lasts : store.lastingKind operation.value = some kind) :
    Remembers ref symbol (operation.run store ref symbol).2 ((operation.value, kind) :: past) := by
  have fits := (remembers.accepted_iff lasts).mp accepted
  have after : (operation.run store ref symbol).2 = store.define ref symbol operation.value := by
    obtain ran | ⟨error, ran⟩ := operation.run_cases store ref symbol
    · rw [ran]
    · rw [ran] at accepted
      cases accepted
  rw [after]
  have keeps := (store.define_keeps ref symbol operation.value).types
  constructor
  case inside => rw [size_define]; exact remembers.inside
  case present => simp [lookup_define, remembers.inside]
  case placed =>
    exact List.forall_mem_cons.mpr
      ⟨keeps.places placed, fun entry member => keeps.places (remembers.placed entry member)⟩
  case lasting =>
    refine List.forall_mem_cons.mpr ⟨(keeps.lastingKind placed).trans lasts, fun entry member => ?_⟩
    exact (keeps.lastingKind (remembers.placed entry member)).trans (remembers.lasting entry member)
  case fitting =>
    refine .cons ?_ remembers.fitting
    intro entry member
    cases past with
    | nil => cases member
    | cons present earlier =>
        rcases List.mem_cons.mp member with rfl | before
        · exact fits
        · exact Kind.assignableTo_trans fits ((List.pairwise_cons.mp remembers.fitting).1 entry before)

end Remembers

theorem History.remembers {past : List (Value × Kind)} (history : History ref symbol store past) :
    Remembers ref symbol store past := by
  induction history with
  | unbound inside unbound => exact ⟨inside, unbound, by simp, by simp, .nil⟩
  | bound bound placed lasts =>
      exact ⟨lt_of_lookup bound, bound, by simpa using placed, by simpa using lasts, by simp⟩
  | stored operation _ accepted placed lasts ih => exact ih.stored accepted placed lasts
  | refused operation _ refused ih =>
      obtain ran | ⟨_, ran⟩ := operation.run_cases _ ref symbol
      · rw [ran] at refused
        cases refused
      · rw [ran]
        exact ih
  | aside _ spares ih => exact ih.aside spares

/-- Whatever is done to a variable and beside it, each of its values may stand where any earlier one was,
and still has the kind that it was stored with. An operation is accepted just when the kind of its value
fits the present one, and does nothing otherwise. -/
theorem history_stable {past : List (Value × Kind)} (history : History ref symbol store past) :
    (∀ kind : Kind, kind.assignableTo kind = true) ∧
      (∀ source middle target : Kind, source.assignableTo middle = true →
        middle.assignableTo target = true → source.assignableTo target = true) ∧
      past.Pairwise (fun entry earlier => entry.2.assignableTo earlier.2 = true) ∧
      (∀ entry ∈ past, store.lastingKind entry.1 = some entry.2) ∧
      (store.scope ref).lookup symbol.id = past.head?.map Prod.fst ∧
      ∀ operation : Operation,
        (∀ kind, store.lastingKind operation.value = some kind →
          ((operation.run store ref symbol).1 = .ok () ↔ accepts past operation kind)) ∧
        ((operation.run store ref symbol).1 = .ok () →
          ((operation.run store ref symbol).2.scope ref).lookup symbol.id = some operation.value) ∧
        ((operation.run store ref symbol).1 ≠ .ok () → (operation.run store ref symbol).2 = store) := by
  have remembers := history.remembers
  refine ⟨Kind.assignableTo_refl, fun _ _ _ => Kind.assignableTo_trans, remembers.fitting,
    remembers.lasting, remembers.present, fun operation => ⟨?accepted, ?_⟩⟩
  case accepted => exact fun kind lasts => remembers.accepted_iff lasts
  obtain ran | ⟨error, ran⟩ := operation.run_cases store ref symbol
  · rw [ran]
    refine ⟨fun _ => ?_, fun refused => absurd rfl refused⟩
    simp [lookup_define, remembers.inside]
  · rw [ran]
    exact ⟨fun accepted => (by cases accepted), fun _ => rfl⟩

/-- Pointers to a record that an evaluation changes between them; a pointer to a record of another type,
which is made there too, is refused. -/
theorem history_stable_pointers :
    let evaluated := fun (text : String) (world : World) =>
      lastState (Interpreter.evalText .none 60 text) world
    let first := evaluated "(def r (hash \"P\" 1 2)) (def x (ptr r))" (Interpreter.fresh default)
    let changed := evaluated "(hset r 1 3) (def y (ptr r)) (def z (ptr (hash \"Q\")))" first
    let symbol := (first.store.intern "x").1
    let last := ((Operation.update (.pointer 1)).run changed.store global symbol).2
    let past : List (Value × Kind) :=
      [(.pointer 1, .pointer (.record "P")), (.pointer 0, .pointer (.record "P"))]
    let other := Operation.update (.pointer 2)
    History global symbol last past ∧
      past.Pairwise (fun entry earlier => entry.2.assignableTo earlier.2 = true) ∧
      last.lastingKind other.value = some (.pointer (.record "Q")) ∧
      (other.run last global symbol).1 ≠ .ok () ∧ (other.run last global symbol).2 = last := by
  intro evaluated first changed symbol last past other
  obtain ⟨bound, kind, one, led, records⟩ :
      (first.store.scope global).lookup symbol.id = some (.pointer 0) ∧
      first.store.lastingKind (.pointer 0) = some (.pointer (.record "P")) ∧
      first.store.pointers.size = 1 ∧ first.store.pointer 0 = .record 0 ∧
      first.store.records.size = 1 := by decide +kernel
  have placed : first.store.Places (.pointer 0) := by
    refine .pointer (one ▸ Nat.one_pos) ?_
    rw [led]
    exact .record (records ▸ Nat.one_pos)
  have ready : first.Ready := (Interpreter.evalText_deepens .none 60 _ (Interpreter.fresh_ready default)).2
  obtain ⟨same, accepted, again, three, ledAgain, two⟩ :
      (changed.store.scope global).lookup symbol.id = (first.store.scope global).lookup symbol.id ∧
      ((Operation.update (.pointer 1)).run changed.store global symbol).1 = .ok () ∧
      changed.store.lastingKind (.pointer 1) = some (.pointer (.record "P")) ∧
      changed.store.pointers.size = 3 ∧ changed.store.pointer 1 = .record 0 ∧
      changed.store.records.size = 2 := by decide +kernel
  have placedAgain : changed.store.Places (.pointer 1) := by
    refine .pointer (three ▸ by decide) ?_
    rw [ledAgain]
    exact .record (two ▸ by decide)
  have beside := (History.bound bound placed kind).evalText .none 60
    "(hset r 1 3) (def y (ptr r)) (def z (ptr (hash \"Q\")))" ready same
  have history : History global symbol last past :=
    .stored (.update (.pointer 1)) beside accepted placedAgain again
  have lasts : last.lastingKind other.value = some (.pointer (.record "Q")) := by decide +kernel
  obtain ⟨-, -, fitting, -, -, operations⟩ := history_stable history
  obtain ⟨fits, -, refused⟩ := operations other
  have unfit : ¬accepts past other (.pointer (.record "Q")) := by
    change ¬(Kind.pointer (.record "Q")).assignableTo (.pointer (.record "P")) = true
    decide
  have isRefused := mt (fits _ lasts).mp unfit
  exact ⟨history, fitting, lasts, isRefused, refused isRefused⟩

end Store

end StackLisp
