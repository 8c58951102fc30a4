import StackLisp.Proofs.Machine.Spared

/-!
Evaluating a text finds every stack as high as the executed code needs it, and leaves the stacks as
they were.
-/

namespace StackLisp

namespace Reader

def Sparing (replies : List Reply) : Prop :=
  ∀ reply ∈ replies, ∀ cause, reply.error = some cause → cause.isFault = false

theorem reply_sparing {reader : Reader} {data : List Datum} {error : Option Error}
    (sparing : Sparing reader.replies) (spared : ∀ cause, error = some cause → cause.isFault = false) :
    Sparing (reader.reply data error).replies := by
  intro reply member
  rcases List.mem_append.mp member with earlier | new
  · exact sparing reply earlier
  · rw [List.mem_singleton.mp new]
    exact spared

theorem settle_sparing {reader : Reader} (sparing : Sparing reader.replies) :
    Sparing reader.settle.replies := by
  unfold settle
  split
  · split
    · exact sparing
    · apply reply_sparing sparing
      simp
  · apply reply_sparing sparing
    intro cause found
    cases found
    rfl

theorem fail_sparing {reader : Reader} {error : Error} (sparing : Sparing reader.replies)
    (spared : error.isFault = false) : Sparing (reader.fail error).replies := by
  refine reply_sparing sparing ?_
  intro cause found
  cases found
  exact spared

theorem advance_sparing {reader : Reader} (table : SymbolTable) (findings : List Finding)
    (sparing : Sparing reader.replies) :
    Sparing (reader.advance table findings).1.replies := by
  induction findings generalizing reader table with
  | nil => exact settle_sparing sparing
  | cons finding later ih =>
      cases finding with
      | fault line problem => exact fail_sparing sparing rfl
      | token token =>
          simp only [advance]
          split
          · exact ih _ sparing
          · exact fail_sparing sparing rfl

theorem restart_sparing (reader : Reader) (table : SymbolTable) (text : String) :
    Sparing (reader.restart table text).1.replies := by
  apply advance_sparing
  intro reply member
  cases member

theorem readBatch_spared {replies : List Reply} (sparing : Sparing replies) {cause : Error}
    (failed : (readBatch replies).2 = some cause) : cause.isFault = false := by
  induction replies with
  | nil => cases failed
  | cons reply later ih =>
      obtain ⟨data, error⟩ := reply
      cases error with
      | some error =>
          cases failed
          exact sparing ⟨data, some cause⟩ List.mem_cons_self cause rfl
      | none => exact ih (fun reply member => sparing reply (by simp [member])) failed

theorem collect_spared {reader : Reader} (sparing : Sparing reader.replies) {cause : Error}
    (failed : reader.collect.1.2 = some cause) : cause.isFault = false := by
  unfold collect at failed
  split at failed
  · cases failed
    rfl
  · exact readBatch_spared sparing failed

end Reader

namespace Interpreter

open Machine

def strictEvalText (host : Host) (fuel : Nat) (text : String) : Machine Value := do
  strictPerform host fuel (.evaluate (← readText text))

theorem faultless_valuesOf {told : List Datum × Option Error}
    (spared : ∀ cause, told.2 = some cause → cause.isFault = false) {world : World}
    (ready : world.Ready) :
    Faultless (valuesOf told) (valuesOf told) world fun _ after => world.Steady after := by
  obtain ⟨data, error⟩ := told
  cases error with
  | none =>
      have keeps := world.store.loadAll_keeps data
      exact faultless_of_ok rfl ⟨⟨rfl, keeps.ages⟩, rfl, ready.sound.grows keeps.grows⟩
  | some cause => exact faultless_fail (spared cause rfl)

theorem faultless_restart (text : String) {world : World} (ready : world.Ready) :
    Faultless
      (onReader fun reader symbols =>
        let (reader, symbols) := reader.restart symbols (text ++ "\n")
        let (told, reader) := reader.collect
        (told, reader, symbols))
      (onReader fun reader symbols =>
        let (reader, symbols) := reader.restart symbols (text ++ "\n")
        let (told, reader) := reader.collect
        (told, reader, symbols)) world fun told after =>
      (∀ cause, told.2 = some cause → cause.isFault = false) ∧ world.Later after ∧ after.Ready ∧
        ∃ reader, after.env = { world.env with reader } := by
  refine faultless_of_ok rfl ⟨fun cause failed => ?_, ⟨rfl, ?_⟩, ?_, _, rfl⟩
  · exact Reader.collect_spared (Reader.restart_sparing _ _ _) failed
  · exact ⟨⟨List.prefix_rfl, List.prefix_rfl⟩, List.prefix_rfl, .of_eq rfl rfl⟩
  · exact ⟨ready.sound, ready.base, ready.hasScope⟩

theorem faultless_reading (text : String) {world : World} (ready : world.Ready) :
    Faultless (readText text) (readText text) world fun _ after =>
      world.Later after ∧ after.Ready ∧ ∃ reader, after.env = { world.env with reader } := by
  refine Faultless.bind ((faultless_restart text ready).mono ?_)
  rintro told after ⟨spared, later, afterReady, reader, env⟩
  refine (faultless_valuesOf spared afterReady).mono fun _ ended steady => ?_
  exact ⟨later.trans steady.later, steady.ready afterReady, reader, steady.env.trans env⟩

theorem faultless_readText (text : String) {world : World} (ready : world.Ready) :
    Faultless (readText text) (readText text) world fun _ after =>
      after.Ready ∧ ∃ reader, after.env = { world.env with reader } :=
  (faultless_reading text ready).mono fun _ _ outcome => outcome.2

/-- A text that is evaluated on empty stacks leads to no step that finds a stack too short, however
deep the runs that it starts are nested, and leaves the stacks as they were. -/
theorem evalText_spared (host : Host) (fuel : Nat) (text : String) (world : World)
    (ready : world.Ready) (noData : world.env.data = .empty) (noCalls : world.env.calls = .empty) :
    strictEvalText host fuel text world = evalText host fuel text world ∧
      (∀ cause after, evalText host fuel text world = .error (.error cause) after →
        cause.isFault = false) ∧
      ∀ value after, evalText host fuel text world = .ok value after →
        after.Ready ∧ after.env.data = .empty ∧ after.env.calls = .empty ∧
          after.env.scopes = world.env.scopes := by
  have faultless : Faultless (strictEvalText host fuel text) (evalText host fuel text) world
      fun _ after => after.Ready ∧ after.env.data = .empty ∧ after.env.calls = .empty ∧
        after.env.scopes = world.env.scopes := by
    refine Faultless.bind ((faultless_readText text ready).mono ?_)
    rintro values read ⟨readReady, reader, env⟩
    refine ((strictPerform_spec host fuel).evaluate values read readReady).mono ?_
    rintro _ after ⟨_, sound, kept⟩
    have same : read.env.SameStacks after.env := by
      apply kept
      rw [env, noData]
      rfl
    have data : after.env.data = world.env.data := by rw [same.data, env]
    have calls : after.env.calls = world.env.calls := by rw [same.calls, env]
    have scopes : after.env.scopes = world.env.scopes := by rw [same.scopes, env]
    have base : after.env.base = world.env.base := by rw [same.base, env]
    refine ⟨⟨sound, ?_, ?_⟩, data.trans noData, calls.trans noCalls, scopes⟩
    · rw [base, calls]
      exact ready.base
    · rw [scopes]
      exact ready.hasScope
  obtain ⟨same, outcome⟩ := faultless
  refine ⟨same, fun cause after failed => ?_, fun value after ended => ?_⟩
  · rw [same, failed] at outcome
    exact outcome
  · rw [same, ended] at outcome
    exact outcome

theorem addStandard_sound (natives : List Standard) {store : Store} (sound : store.Sound) :
    (addStandard natives store).Sound := by
  induction natives generalizing store with
  | nil => exact sound
  | cons native later ih =>
      apply ih
      intro function member
      rcases Array.mem_push.mp member with earlier | rfl
      · exact sound function earlier
      · exact .inr ⟨native, native.arity, false, rfl⟩

theorem fresh_ready (config : Config) : (fresh config).Ready := by
  have sound : Store.empty.Sound := by
    intro function member
    simp [Store.empty] at member
  refine ⟨?_, Nat.le_refl _, Nat.one_pos⟩
  rw [fresh_store]
  exact addStandard_sound Standard.all sound

theorem evalText_spared_nested :
    let text := "(map (fn [x] (* x x)) [1 2 3])"
    strictEvalText .none 100 text (fresh default) = evalText .none 100 text (fresh default) :=
  (evalText_spared .none 100 _ (fresh default) (fresh_ready default) rfl rfl).1

end Interpreter

end StackLisp
