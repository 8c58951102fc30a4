import StackLisp.Proofs.Machine.Guarded

/-!
Symbols keep their identity, whatever is interned, generated, read and executed, and by whichever
interpreter of a family: all of them share one table, and all that happens to it is that names enter
it.
-/

namespace StackLisp

namespace Store

structure Numbered (store : Store) : Prop where
  names : store.symbols.Counted
  counted : 2 * store.nextName ≤ store.symbols.size * (store.symbols.size + 1)

variable {writes : Writes} {store later : Store}

theorem Change.grown (change : store.Change writes later) : store.symbols.Grown later.symbols := by
  cases change with
  | named grown => exact grown
  | fresh stem => exact store.symbols.grown_fresh stem store.nextName
  | registered function => exact store.symbols.grown_symbol function.name
  | _ => exact .refl

theorem Develops.grown (develops : store.Develops writes later) :
    store.symbols.Grown later.symbols := by
  induction develops with
  | refl => exact .refl
  | snoc _ change ih => exact ih.trans change.grown

theorem Numbered.change (numbered : store.Numbered) (change : store.Change writes later) :
    later.Numbered := by
  refine ⟨change.grown.counted numbered.names, ?_⟩
  have counted := numbered.counted
  have still (same : later.nextName = store.nextName) :
      2 * later.nextName ≤ later.symbols.size * (later.symbols.size + 1) := by
    have more := change.grown.size_le
    rw [same]
    exact counted.trans (Nat.mul_le_mul more (Nat.succ_le_succ more))
  cases change with
  | fresh stem =>
      have bound := store.symbols.freshCount_le stem store.symbols.numbers.size store.nextName
      have names : store.symbols.numbers.size = store.symbols.size := numbered.names
      simp only [freshSymbol, SymbolTable.fresh_eq, SymbolTable.size_enter]
      rw [show (store.symbols.size + 1) * (store.symbols.size + 1 + 1) =
        store.symbols.size * (store.symbols.size + 1) + 2 * (store.symbols.size + 1) by ring]
      omega
  | _ => exact still rfl

theorem Numbered.develops (numbered : store.Numbered) (develops : store.Develops writes later) :
    later.Numbered := develops.keeps (fun held change => held.change change) numbered

theorem Numbered.counter_lt (numbered : store.Numbered) (few : store.symbols.size < 2 ^ 32) :
    store.nextName + store.symbols.size + 1 < 2 ^ 64 := by
  have counted := numbered.counted
  have product : store.symbols.size * (store.symbols.size + 1) ≤ (2 ^ 32 - 1) * 2 ^ 32 :=
    Nat.mul_le_mul (by omega) (by omega)
  omega

theorem freshSymbol_eq (store : Store) (stem : String) :
    ∃ count, store.freshSymbol stem =
        (⟨SymbolTable.freshName stem count, (UInt32.ofNat store.symbols.size).toNat, false⟩,
          { store with
            symbols := store.symbols.enter (SymbolTable.freshName stem count)
            nextName := count + 1 }) ∧
      store.symbols.idOf? (SymbolTable.freshName stem count) = none ∧
      count ≤ store.nextName + store.symbols.numbers.size ∧
      ∀ tried, store.nextName ≤ tried → tried < count →
        store.symbols.idOf? (SymbolTable.freshName stem tried) ≠ none := by
  refine ⟨store.symbols.freshCount stem store.symbols.numbers.size store.nextName, ?_,
    store.symbols.freshCount_unknown stem store.nextName,
    store.symbols.freshCount_le stem _ _, fun tried above below => ?_⟩
  · rw [freshSymbol, SymbolTable.fresh_eq]
  · have taken := (store.symbols.freshCount_taken stem _ _).2 tried above below
    rw [Ne, SymbolTable.idOf?_eq_none]
    exact not_not_intro taken

theorem Numbered.freshSymbol_new (numbered : store.Numbered) (inverse : store.symbols.Inverse)
    (few : store.symbols.size < 2 ^ 32) (stem : String) :
    let made := store.freshSymbol stem
    (∀ name id, store.symbols.idOf? name = some id → made.1.id ≠ id ∧ made.1.name ≠ name) ∧
      made.1.id = store.symbols.size ∧ made.2.symbols.idOf? made.1.name = some made.1.id ∧
      ∃ count, made.1.name = SymbolTable.freshName stem count ∧ made.2.nextName = count + 1 ∧
        count ≤ store.nextName + store.symbols.size ∧ made.2.nextName < 2 ^ 64 ∧
        ∀ tried, store.nextName ≤ tried → tried < count →
          (store.symbols.idOf? (SymbolTable.freshName stem tried)).isSome := by
  obtain ⟨count, made, unknown, bound, tried⟩ := store.freshSymbol_eq stem
  have short := numbered.counter_lt few
  have names : store.symbols.numbers.size = store.symbols.size := numbered.names
  have next := SymbolTable.next_eq few
  have differs (name : String) (id : Nat) (known : store.symbols.idOf? name = some id) :
      store.symbols.size ≠ id ∧ SymbolTable.freshName stem count ≠ name := by
    refine ⟨(inverse.idOf?_lt known).ne', ?_⟩
    rintro rfl
    rw [unknown] at known
    cases known
  have entered := SymbolTable.idOf?_intern store.symbols (SymbolTable.freshName stem count)
  rw [SymbolTable.intern_of_unknown unknown, next] at entered
  rw [made, next]
  refine ⟨differs, rfl, entered, count, rfl, rfl, names ▸ bound, ?_, fun other above below => ?_⟩
  · dsimp only
    omega
  · exact Option.isSome_iff_ne_none.mpr (tried other above below)

theorem numbered_empty : Store.empty.Numbered := ⟨SymbolTable.counted_empty, Nat.le_refl 0⟩

theorem develops_addStandard (natives : List Standard) (store : Store) :
    store.Develops writes (Interpreter.addStandard natives store) := by
  induction natives generalizing store with
  | nil => exact .refl
  | cons native later ih => exact (Change.registered _).develops.trans (ih _)

end Store

namespace Interpreter

open Machine

/-- A later state of a family of interpreters, seen by any of them. -/
inductive Later (host : Host) (world : World) : World → Prop
  | refl : Later host world world
  | acts {between : World} {α : Type} {body : Perform → Machine α} (fuel : Nat) :
    Later host world between → Acts .all True body →
    Later host world (lastState (body (perform host fuel)) between)
  | switched {between : World} (env : Env) :
    Later host world between → Later host world { between with env }

section Later

variable {host : Host} {hears : Prop}

theorem Later.trans {world between after : World} (first : Later host world between)
    (second : Later host between after) : Later host world after := by
  induction second with
  | refl => exact first
  | acts fuel _ acts ih => exact ih.acts fuel acts
  | switched env _ ih => exact ih.switched env

theorem Later.develops (hosted : host.Acts .all hears) {world after : World}
    (later : Later host world after) : world.store.Develops .all after.store := by
  induction later with
  | refl => exact .refl
  | @acts between α body fuel _ acts ih =>
      exact ih.trans (acts.behaves (behaves_perform hosted fuel) between).develops
  | switched env _ ih => exact ih

theorem develops_fresh {writes : Store.Writes} (config : Config) :
    Store.empty.Develops writes (fresh config).store := by
  rw [fresh_store]
  exact Store.develops_addStandard Standard.all .empty

theorem Later.numbered (hosted : host.Acts .all hears) {config : Config} {world : World}
    (later : Later host (fresh config) world) : world.store.Numbered :=
  Store.numbered_empty.develops ((develops_fresh config).trans (later.develops hosted))

theorem Later.inverse (hosted : host.Acts .all hears) {config : Config} {world : World}
    (later : Later host (fresh config) world) (few : world.store.symbols.size ≤ 2 ^ 32) :
    world.store.symbols.Inverse :=
  ((develops_fresh config).trans (later.develops hosted)).grown.inverse SymbolTable.inverse_empty few

theorem freshSymbol_apply (stem : String) (world : World) :
    freshSymbol stem world = .ok (world.store.freshSymbol stem).1
      { world with store := (world.store.freshSymbol stem).2 } := rfl

/-- A name that has been interned and one that is interned later have the same number only if they are
the same. -/
theorem Later.intern_iff (hosted : host.Acts .all hears) {early late : World} {name other : String}
    (later : Later host (lastState (intern name) early) late)
    (inverse : (late.store.intern other).2.symbols.Inverse) :
    (early.store.intern name).1.id = (late.store.intern other).1.id ↔ name = other := by
  have first : (early.store.intern name).2.symbols.idOf? name =
      some (early.store.intern name).1.id := SymbolTable.idOf?_intern _ name
  have lasts : late.store.symbols.idOf? name = some (early.store.intern name).1.id :=
    (later.develops hosted).grown.extends _ _ first
  have both : (late.store.intern other).2.symbols.idOf? name =
      some (early.store.intern name).1.id := SymbolTable.intern_extends _ other _ _ lasts
  have second : (late.store.intern other).2.symbols.idOf? other =
      some (late.store.intern other).1.id := SymbolTable.idOf?_intern _ other
  constructor
  · intro same
    rw [← same] at second
    exact Option.some.inj (((inverse _ _).mp both).symm.trans ((inverse _ _).mp second))
  · rintro rfl
    exact Option.some.inj (both.symm.trans second)

/-- A family of interpreters with fewer names than there are words of 32 bits. The names that it knows
have the numbers from zero on, each name one, and keep them for ever; interning tells two names apart,
whatever happens in between. And a fresh symbol is found within as many steps as there are names; it is
a new one, whatever its stem is and whatever names were there. -/
theorem symbols_keep_identity (hosted : host.Acts .all hears) {config : Config}
    {early late : World} (before : Later host (fresh config) early) (later : Later host early late)
    (few : late.store.symbols.size < 2 ^ 32) :
    let table := late.store.symbols
    (∀ id, (table.nameOf? id).isSome ↔ id < table.size) ∧
      (∀ name id, table.idOf? name = some id ↔ table.nameOf? id = some name) ∧
      (∀ name id, table.idOf? name = some id → id < 2 ^ 32) ∧
      (∀ name, (table.idOf? name = none → (table.intern name).1 = table.size) ∧
        (table.intern name).2.idOf? name = some (table.intern name).1 ∧
        (table.intern name).2.nameOf? (table.intern name).1 = some name) ∧
      (∀ name id, early.store.symbols.idOf? name = some id → table.idOf? name = some id) ∧
      (∀ name other, Later host (lastState (intern name) early) late →
        ((early.store.intern name).1.id = (late.store.intern other).1.id ↔ name = other)) ∧
      (∀ stem, ∃ symbol after, freshSymbol stem late = .ok symbol after ∧
        (∀ name id, table.idOf? name = some id → symbol.id ≠ id ∧ symbol.name ≠ name) ∧
        symbol.id = table.size ∧ after.store.symbols.idOf? symbol.name = some symbol.id ∧
        ∃ count, symbol.name = SymbolTable.freshName stem count ∧ after.store.nextName = count + 1 ∧
          count ≤ late.store.nextName + table.size ∧ after.store.nextName < 2 ^ 64 ∧
          ∀ tried, late.store.nextName ≤ tried → tried < count →
            (table.idOf? (SymbolTable.freshName stem tried)).isSome) := by
  intro table
  have numbered := (before.trans later).numbered hosted
  have inverse : table.Inverse := (before.trans later).inverse hosted few.le
  have entered (name : String) : (table.intern name).2.Inverse :=
    inverse.intern name ((table.size_intern_le name).trans few)
  refine ⟨fun id => SymbolTable.nameOf?_isSome, inverse, fun name id known => ?_,
    fun name => ?_, ?_, ?_, ?_⟩
  · exact (inverse.idOf?_lt known).trans few
  · have known := SymbolTable.idOf?_intern table name
    refine ⟨fun unknown => ?_, known, (entered name _ _).mp known⟩
    rw [SymbolTable.intern_of_unknown unknown, SymbolTable.next_eq few]
  · exact (later.develops hosted).grown.extends
  · exact fun name other interned => interned.intern_iff hosted (entered other)
  · exact fun stem => ⟨_, _, freshSymbol_apply stem late, numbered.freshSymbol_new inverse few stem⟩

/-- The first two names that could be given to a fresh symbol have been read before, and the third is
given to the first one that is asked for. -/
theorem symbols_keep_identity_read :
    let start := fresh ⟨10000, 32, false, false, false⟩
    let body : Machine Symbol := do
      let _ ← readText "(list x__0 x__1)"
      freshSymbol "x"
    let late := lastState body start
    Host.none.Acts .all True ∧ Later .none start start ∧ Later .none start late ∧
      late.store.symbols.size < 2 ^ 32 ∧ (body.run' start).map Symbol.name = some "x__2" ∧
      (late.store.freshSymbol "x").1.name = "x__3" ∧
      ∃ symbol after, freshSymbol "x" late = .ok symbol after ∧
        ∀ name id, late.store.symbols.idOf? name = some id → symbol.id ≠ id ∧ symbol.name ≠ name := by
  intro start body late
  have hosted : Host.none.Acts .all True := fun _ _ _ => .result _
  have few : late.store.symbols.size < 2 ^ 32 := by decide +kernel
  have names : (body.run' start).map Symbol.name = some "x__2" ∧
      (late.store.freshSymbol "x").1.name = "x__3" := by decide +kernel
  have acts : Acts .all True fun _ => body :=
    (acts_readText trivial _).andThen fun _ => acts_freshSymbol "x"
  have starts : Later .none start start := .refl
  have ended := starts.acts 0 acts
  have later : Later .none start late := ended
  obtain ⟨_, _, _, _, _, _, asked⟩ := symbols_keep_identity hosted starts later few
  obtain ⟨symbol, after, made, differs, _⟩ := asked "x"
  exact ⟨hosted, starts, later, few, names.1, names.2, symbol, after, made, differs⟩

end Later

end Interpreter

end StackLisp
