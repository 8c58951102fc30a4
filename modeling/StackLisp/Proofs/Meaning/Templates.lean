import StackLisp.Interpreter
import StackLisp.Proofs.Form.Templates
import StackLisp.Proofs.Meaning.Expressed
import StackLisp.Proofs.Meaning.Recorded
import StackLisp.Proofs.Native.Blind

/-!
Array literals and templates call functions by their names. Where the names are bound to the standard
functions, a literal comes to a new array of what its items come to, and a template comes to what it
would come to if no program had bound the names to anything.
-/

namespace StackLisp

structure Memory.Agrees (naming : Naming) (memory other : Memory) : Prop where
  store : naming.Agrees memory.store other.store
  journal : other.journal = memory.journal

def Site.Resolves (site : Site) (naming : Naming) (memory : Memory) : Prop :=
  naming.Resolved site.scopes site.function.captures memory.store

def Site.Finds (site : Site) (naming : Naming) (native : Standard) (memory : Memory) : Prop :=
  ∃ ref, memory.store.lookup site.scopes site.function.captures (naming.symbol native) =
    (.ok (.function ref), memory.store) ∧ memory.store.function ref = .standard native

theorem Site.Resolves.finds {site : Site} {naming : Naming} {memory : Memory}
    (resolves : site.Resolves naming memory) {native : Standard} (joins : native ∈ joining) :
    site.Finds naming native memory := resolves.lookup joins

section Agrees

variable {naming : Naming} {memory other : Memory}

theorem Memory.Agrees.symm (agrees : memory.Agrees naming other) : other.Agrees naming memory :=
  ⟨agrees.store.symm, agrees.journal.symm⟩

theorem Memory.observed_store (memory : Memory) (config : Config) (event : Event)
    (values : List Value) : (memory.observed config event values).store = memory.store := by
  unfold Memory.observed
  split
  · rfl
  · rfl

def Memory.behind (memory : Memory) (config : Config) (native : Standard) (arguments : List Value)
    (value : Value) (store : Store) : Memory :=
  ((memory.observed config (.called native.name arguments) arguments).withStore store).observed config
    (.returned native.name value) [value]

theorem Memory.behind_store (memory : Memory) (config : Config) (native : Standard)
    (arguments : List Value) (value : Value) (store : Store) :
    (memory.behind config native arguments value store).store = store :=
  observed_store _ _ _ _

theorem Memory.Agrees.observed (agrees : memory.Agrees naming other) (config : Config) (event : Event)
    (values : List Value) :
    (memory.observed config event values).Agrees naming (other.observed config event values) where
  store := by
    rw [observed_store, observed_store]
    exact agrees.store
  journal := by
    have texts : other.store.text = memory.store.text := by
      funext value
      rw [agrees.store.rest, Store.text_scopes]
    unfold Memory.observed
    split
    · simp only [agrees.journal, texts]
    · exact agrees.journal

theorem Site.Resolves.observed {site : Site} (resolves : site.Resolves naming memory)
    (config : Config) (event : Event) (values : List Value) :
    site.Resolves naming (memory.observed config event values) := by
  unfold Site.Resolves
  rw [Memory.observed_store]
  exact resolves

end Agrees

namespace Machine

theorem Blind.gives {α : Type} {body : Machine α} (blind : Blind body) {naming : Naming} {site : Site}
    {memory other after : Memory} {value : α} (agrees : memory.Agrees naming other)
    (plain : memory.Plain) (gives : Gives site memory body value after) :
    after.store.scopes = memory.store.scopes ∧ after.store.functions = memory.store.functions ∧
      after.journal = memory.journal ∧ Gives site other body value
        ⟨{ after.store with scopes := other.store.scopes }, other.journal⟩ := by
  -- What it leaves is the same wherever it is done, so it is done in the machine of the memory first.
  have left (world : World) (same : world.site = site) (known : world.memory = memory) :
      body world = .ok value { world with store := after.store } ∧
        after.store.scopes = world.store.scopes ∧ after.store.functions = world.store.functions ∧
        after.journal = world.journal.plain ∧
        ∀ scopes : Array Scope, body { world with store := { world.store with scopes } } =
          .ok value { world with store := { after.store with scopes } } := by
    obtain ⟨ended, ran, _, _, told⟩ := gives world same known
    obtain ⟨store, rfl, scopes, functions, others⟩ := blind world value ended ran
    subst told
    exact ⟨ran, scopes, functions, rfl, others⟩
  obtain ⟨_, scopes, functions, journal, _⟩ :=
    left (site.world memory) (site.world_site memory) (site.world_memory plain)
  refine ⟨scopes, functions, journal.trans plain, ?_⟩
  rintro world rfl rfl
  let back : World := { world with store := { world.store with scopes := memory.store.scopes } }
  have store : back.store = memory.store := by
    have rest := agrees.store.symm.rest
    exact rest.symm
  have known : back.memory = memory := by
    rw [World.memory, store]
    exact congrArg (Memory.mk memory.store) agrees.journal
  obtain ⟨_, _, _, _, others⟩ := left back rfl known
  exact ⟨_, others world.store.scopes, rfl, rfl, rfl⟩

theorem Blind.resolves {α : Type} {body : Machine α} (blind : Blind body) {naming : Naming}
    {site : Site} {memory other after : Memory} {value : α} (plain : memory.Plain)
    (agrees : memory.Agrees naming other) (resolves : site.Resolves naming memory)
    (others : site.Resolves naming other) (gives : Gives site memory body value after) :
    site.Resolves naming after ∧ ∃ later, after.Agrees naming later ∧
      site.Resolves naming later ∧ Gives site other body value later := by
  obtain ⟨scopes, functions, journal, there⟩ := blind.gives agrees plain gives
  let later : Memory := ⟨{ after.store with scopes := other.store.scopes }, other.journal⟩
  have same : later.store.functions = other.store.functions := by
    rw [agrees.store.rest]
    exact functions
  exact ⟨resolves.with scopes functions, later,
    ⟨agrees.store.with scopes, agrees.journal.trans journal.symm⟩, others.with rfl same, there⟩

section Unconcerned

variable (host : Host) (perform : Perform) (naming : Naming) (site : Site)

/-- A task that comes to the same values whatever the names are bound to where it does not see them, and
that leaves them as it sees them. -/
def Unconcerned (task : Task) : Prop :=
  ∀ memory other values after, memory.Plain → memory.Agrees naming other →
    site.Resolves naming memory → site.Resolves naming other →
    Evaluates host perform site memory task (.values values) after →
    site.Resolves naming after ∧ ∃ later, after.Agrees naming later ∧ site.Resolves naming later ∧
      Evaluates host perform site other task (.values values) later

variable {host perform naming site}

theorem unconcerned_constant (value : Value) :
    Unconcerned host perform naming site (.expression (.constant value)) := by
  intro memory other values after _ agrees resolves others evaluates
  cases evaluates with
  | constant => exact ⟨resolves, other, agrees, others, .constant⟩

theorem unconcerned_variable {symbol : Symbol} (noPath : symbol.isPath = false)
    (plainName : naming.owns symbol.id = false) :
    Unconcerned host perform naming site (.expression (.variable symbol)) := by
  have looked (store : Store) : store.lookup site.scopes site.function.captures symbol =
      (store.lookupPlain site.scopes site.function.captures symbol, store) :=
    store.lookup_plain _ _ noPath
  intro memory other values after _ agrees resolves others evaluates
  have same : other.store.lookupPlain site.scopes site.function.captures symbol =
      memory.store.lookupPlain site.scopes site.function.captures symbol := by
    rw [Store.lookupPlain, Store.lookupPlain, agrees.store.findBinding plainName]
  generalize comes : Outcome.values values = outcome at evaluates
  cases evaluates with
  | lookup found =>
      rw [looked] at found
      cases found
      refine ⟨resolves, other, agrees, others, ?_⟩
      rw [← same]
      exact .lookup (looked other.store)
  | first => cases comes

theorem unconcerned_operands {expressions : List Expression}
    (parts : ∀ part ∈ expressions, Unconcerned host perform naming site (.expression part)) :
    Unconcerned host perform naming site (.operands expressions) := by
  induction expressions with
  | nil =>
      intro memory other values after _ agrees resolves others evaluates
      cases evaluates with
      | noOperand => exact ⟨resolves, other, agrees, others, .noOperand⟩
  | cons first later ih =>
      intro memory other values after plain agrees resolves others evaluates
      obtain ⟨front, back⟩ := List.forall_mem_cons.mp parts
      cases evaluates with
      | operand evaluatesFirst evaluatesRest =>
          obtain ⟨between, middle, agreesMiddle, resolvesMiddle, firstThere⟩ :=
            front _ _ _ _ plain agrees resolves others evaluatesFirst
          have plainMiddle := evaluates_plain evaluatesFirst plain
          obtain ⟨last, ended, agreesEnded, resolvesEnded, restThere⟩ :=
            ih back _ _ _ _ plainMiddle agreesMiddle between resolvesMiddle evaluatesRest
          exact ⟨last, ended, agreesEnded, resolvesEnded, .operand firstThere restThere⟩

theorem unconcerned_standard {native : Standard} (joins : native ∈ joining) (arguments : List Value) :
    Unconcerned host perform naming site (.call (.standard native) arguments) := by
  intro memory other values after plain agrees resolves others evaluates
  cases evaluates with
  | native made accepted gives =>
      cases made
      have blind := blind_joining joins host perform native.name arguments
      obtain ⟨stays, later, agreesLater, staysLater, there⟩ := blind.resolves (plain.observed _ _ _)
        (agrees.observed _ _ _) (resolves.observed _ _ _) (others.observed _ _ _) gives
      refine ⟨stays.observed _ _ _, _, agreesLater.observed _ _ _, staysLater.observed _ _ _, ?_⟩
      exact .native rfl accepted there
  | returns made => cases made

theorem unconcerned_call {native : Standard} (joins : native ∈ joining) {arguments : List Expression}
    (parts : ∀ part ∈ arguments, Unconcerned host perform naming site (.expression part)) :
    Unconcerned host perform naming site (.expression (.call (naming.symbol native) arguments)) := by
  intro memory other values after plain agrees resolves others evaluates
  cases evaluates with
  | call operands looked called =>
      obtain ⟨stays, given, agreesGiven, staysGiven, operandsThere⟩ :=
        unconcerned_operands parts _ _ _ _ plain agrees resolves others operands
      obtain ⟨ref, found, standard⟩ := stays.finds joins
      obtain ⟨refThere, foundThere, standardThere⟩ := staysGiven.finds joins
      rw [found] at looked
      cases looked
      rw [standard] at called
      obtain ⟨last, later, agreesLater, lastThere, calledThere⟩ :=
        unconcerned_standard joins _ _ _ _ _ (evaluates_plain operands plain) agreesGiven stays
          staysGiven called
      refine ⟨last, later, agreesLater, lastThere, .call operandsThere foundThere ?_⟩
      rw [standardThere]
      exact calledThere

mutual

theorem template_unconcerned {value : Value} {form : Form} {holes : List (Value × Form)}
    (template : Form.Template naming value form holes)
    (parts : ∀ hole ∈ holes, Unconcerned host perform naming site (.expression hole.2.expression)) :
    Unconcerned host perform naming site (.expression form.expression) := by
  match template with
  | .constant _ _ => exact unconcerned_constant value
  | .unquoted _ _ => exact parts _ (List.mem_singleton_self _)
  | .list _ _ segments =>
      exact unconcerned_call (by decide) (segments_unconcerned segments (by decide) parts)
  | .array segments =>
      refine unconcerned_call (by decide) (List.forall_mem_cons.mpr ⟨?_, ?_⟩)
      · exact unconcerned_call (by decide) fun _ member => nomatch member
      · exact segments_unconcerned segments (by decide) parts

theorem segments_unconcerned {wrap : Standard} {items : List Value} {forms : List Form}
    {holes : List (Value × Form)} (segments : Form.Segments naming wrap items forms holes)
    (joins : wrap ∈ joining)
    (parts : ∀ hole ∈ holes, Unconcerned host perform naming site (.expression hole.2.expression)) :
    ∀ part ∈ Form.expressions forms, Unconcerned host perform naming site (.expression part) := by
  match segments with
  | .nil => exact fun _ member => nomatch member
  | .item _ template later =>
      obtain ⟨inside, behind⟩ := List.forall_mem_append.mp parts
      have one := template_unconcerned template inside
      refine List.forall_mem_cons.mpr ⟨?_, segments_unconcerned later joins behind⟩
      exact unconcerned_call joins (List.forall_mem_singleton.mpr one)
  | .spliced _ later =>
      obtain ⟨one, behind⟩ := List.forall_mem_cons.mp parts
      exact List.forall_mem_cons.mpr ⟨one, segments_unconcerned later joins behind⟩

end

end Unconcerned

section Made

variable {host : Host} {perform : Perform} {naming : Naming} {site : Site} {memory given : Memory}
  {elements : List Expression} {values : List Value} {value : Value}

theorem evaluates_call {native : Standard} (joins : native ∈ joining) {store : Store}
    (operands : Evaluates host perform site memory (.operands elements) (.values values) given)
    (finds : site.Finds naming native given)
    (makes : ∀ world : World, world.store = given.store →
      callNative host perform native.name (.standard native) values world =
        .ok value { world with store }) :
    Evaluates host perform site memory (.expression (.call (naming.symbol native) elements))
      (.values [value]) (given.behind site.config native values value store) := by
  obtain ⟨ref, found, standard⟩ := finds
  have accepted : native.arity.check native.name values.length = .ok () := by
    simp only [joining, List.mem_cons, List.not_mem_nil, or_false] at joins
    rcases joins with rfl | rfl | rfl <;> rfl
  let called := given.observed site.config (.called native.name values) values
  have gives : Gives site called (callNative host perform native.name (.standard native) values) value
      ⟨store, called.journal⟩ := by
    rintro world rfl known
    have same : world.store = given.store := by
      rw [← Memory.observed_store given _ (.called native.name values) values]
      exact congrArg Memory.store known
    exact ⟨_, makes world same, rfl, rfl, congrArg (Memory.mk store) (congrArg Memory.journal known)⟩
  have ran : Evaluates host perform site given (.call (.standard native) values) (.values [value])
      (given.behind site.config native values value store) := .native rfl accepted gives
  rw [← standard] at ran
  exact .call operands found ran

theorem evaluates_named {native : Standard} (joins : native ∈ joining) {store : Store}
    (operands : Evaluates host perform site memory (.operands elements) (.values values) given)
    (finds : site.Finds naming native given)
    (makes : ∀ world : World, world.store = given.store →
      callNative host perform native.name (.standard native) values world =
        .ok value { world with store }) :
    ∃ after, Evaluates host perform site memory
      (.expression (.call (naming.symbol native) elements)) (.values [value]) after ∧
        after.store = store :=
  ⟨_, evaluates_call joins operands finds makes, Memory.behind_store _ _ _ _ _ _⟩

theorem evaluates_array
    (operands : Evaluates host perform site memory (.operands elements) (.values values) given)
    (finds : site.Finds naming .array given) :
    ∃ after, Evaluates host perform site memory
      (.expression (.call (naming.symbol .array) elements)) (.values [.array given.store.arrays.size])
        after ∧ after.store = (given.store.newArray values.toArray).2 := by
  refine evaluates_named (by decide) operands finds fun world same => ?_
  rw [← same]
  rfl

theorem evaluates_list
    (operands : Evaluates host perform site memory (.operands elements) (.values values) given)
    (finds : site.Finds naming .list given) :
    ∃ after, Evaluates host perform site memory
      (.expression (.call (naming.symbol .list) elements)) (.values [(given.store.newList values).1])
        after ∧ after.store = (given.store.newList values).2 := by
  refine evaluates_named (by decide) operands finds fun world same => ?_
  rw [← same]
  rfl

end Made

section ComesAlike

variable {host : Host} {perform : Perform} {naming : Naming} {world other : World} {form : Form}

def ComesAlike (host : Host) (perform : Perform) (naming : Naming) (form : Form) (world other : World) :
    Prop :=
  ∀ result after, Evaluates host perform world.site world.memory (.expression form.expression)
      (.values [result]) after →
    ∃ later, after.Agrees naming later ∧
      RunsTo host perform world (form.code .start).length (.values [result]) after ∧
      RunsTo host perform other (form.code .start).length (.values [result]) later

theorem Unconcerned.comesAlike
    (unconcerned : Unconcerned host perform naming world.site (.expression form.expression))
    (place : other.site = world.site) (agrees : world.memory.Agrees naming other.memory)
    (resolves : world.site.Resolves naming world.memory)
    (others : world.site.Resolves naming other.memory) (starts : world.Starts form)
    (startsThere : other.Starts form) : ComesAlike host perform naming form world other := by
  intro result after evaluates
  obtain ⟨_, later, agreesLater, _, there⟩ :=
    unconcerned _ _ _ _ (Memory.plain_world world) agrees resolves others evaluates
  rw [← place] at there
  exact ⟨later, agreesLater, form_runs starts evaluates, form_runs startsThere there⟩

end ComesAlike

section Literals

variable {host : Host} {hears : Prop} {naming : Naming} {level depth : Nat} {context : Context}
  {before compiled : World} {form : Form}

/-- What is read from an array literal comes to a new array of what its items come to, if `array` is
still bound to the standard function then. And what is read from a template comes to what it would come
to without the bindings that programs have made of the three names, if these are seen to be bound to
the standard functions, and if that holds of what is read from its unquoted parts. -/
theorem literals_apart (hosted : host.Acts .all hears) (known : naming.Known before.store) :
    (∀ ref, Form.read (Machine.perform host level) depth .form context (.array ref) before =
        .ok form compiled →
      ∃ forms, List.Forall₂ (fun item form =>
          Form.WasRead (Machine.perform host level) context (item, form))
            (before.store.array ref).toList forms ∧
        ∀ perform (world : World) values given, world.Starts form →
          Evaluates host perform world.site world.memory (.operands (Form.expressions forms))
            (.values values) given →
          world.site.Finds naming .array given →
          ∃ after, RunsTo host perform world (form.code .start).length
              (.values [.array given.store.arrays.size]) after ∧
            after.store = (given.store.newArray values.toArray).2) ∧
    (∀ value, Form.read (Machine.perform host level) depth .template context value before =
        .ok form compiled →
      ∃ holes, Form.Template naming value form holes ∧
        (∀ hole ∈ holes, Form.WasRead (Machine.perform host level) context hole) ∧
        ∀ perform (world : World) refs, world.Starts form →
          Store.global < world.store.scopes.size →
          (∀ native ∈ joining, world.store.function (refs native) = .standard native) →
          world.site.Resolves naming world.memory →
          (∀ hole ∈ holes,
            Unconcerned host perform naming world.site (.expression hole.2.expression)) →
          let other := { world with store := world.store.restored naming refs }
          ComesAlike host perform naming form world other ∧
            ComesAlike host perform naming form other world) := by
  have serves : ∀ request, Behaves .all (Machine.perform host level request) :=
    behaves_perform hosted level
  refine ⟨fun ref ran => ?_, fun value ran => ?_⟩
  · obtain ⟨forms, rfl, read⟩ := Form.reads_array serves known ran
    refine ⟨forms, read, fun perform world values given starts operands finds => ?_⟩
    obtain ⟨after, evaluates, made⟩ := evaluates_array operands finds
    exact ⟨after, form_runs starts evaluates, made⟩
  · obtain ⟨holes, template, read⟩ := Form.readsTemplates serves depth value before form compiled known ran
    refine ⟨holes, template, read, fun perform world refs starts hasGlobal made resolves parts => ?_⟩
    intro other
    have unconcerned := template_unconcerned template parts
    have unconcernedThere : Unconcerned host perform naming other.site (.expression form.expression) :=
      unconcerned
    have agrees : world.memory.Agrees naming other.memory :=
      ⟨world.store.agrees_restored naming refs, rfl⟩
    have others : other.site.Resolves naming other.memory :=
      Store.resolved_restored resolves.distinct hasGlobal made _ _
    have startsThere : other.Starts form := ⟨starts.closed, starts.program, starts.begins,
      starts.hasScope, starts.base⟩
    exact ⟨unconcerned.comesAlike rfl agrees resolves others starts startsThere,
      unconcernedThere.comesAlike rfl agrees.symm others resolves startsThere starts⟩

/-! A store in which a scope that is not seen binds one of the names. -/

def firstNames : Naming
  | .list => 0
  | .array => 1
  | _ => 2

def variableX : Symbol := ⟨"x", 3, false⟩

def leftScope : Store :=
  { Store.empty with
    symbols := .ofNames ["list", "array", "concat", "x", "unquote"]
    functions := (joining.map Function.standard).toArray
    arrays := #[#[.symbol variableX]]
    scopes := #[⟨"global", false, [(0, .function 0), (1, .function 1), (2, .function 2), (3, .int 7)]⟩,
      ⟨"over", true, [(0, .int 1)]⟩] }

def unquotedX : Value :=
  .pair 0 (.pair 1 (.symbol ⟨"unquote", 4, false⟩) (.pair 2 (.symbol variableX) .nil)) .nil

def startingThere (form : Form) : World := { starting form with store := leftScope }

theorem known_leftScope : firstNames.Known leftScope := by
  unfold Naming.Known
  decide +kernel

theorem function_leftScope {native : Standard} (joins : native ∈ joining) :
    leftScope.function (firstNames native) = .standard native := by
  simp only [joining, List.mem_cons, List.not_mem_nil, or_false] at joins
  rcases joins with rfl | rfl | rfl <;> rfl

theorem resolves_leftScope {site : Site} (scopes : site.scopes = [Store.global])
    (captures : site.function.captures = []) {memory : Memory}
    (same : memory.store.scopes = leftScope.scopes)
    (functions : memory.store.functions = leftScope.functions) : site.Resolves firstNames memory := by
  have resolved : firstNames.Resolved [Store.global] [] leftScope := by
    intro native joins
    refine ⟨firstNames native, Store.global, ?_, function_leftScope joins⟩
    simp only [joining, List.mem_cons, List.not_mem_nil, or_false] at joins
    rcases joins with rfl | rfl | rfl <;> rfl
  unfold Site.Resolves
  rw [scopes, captures]
  exact resolved.with same functions

theorem template_unquotedX {naming : Naming} {form : Form} {holes : List (Value × Form)}
    (template : Form.Template naming unquotedX form holes) :
    ∃ hole, holes = [(.symbol variableX, hole)] ∧
      form = .call (naming.symbol .concat) [.call (naming.symbol .list) [hole]] := by
  cases template with
  | constant _ dotted => cases dotted _ _ _ rfl
  | unquoted items wrapped =>
      cases items
      cases wrapped
  | list items whole segments =>
      cases items
      cases segments with
      | spliced splice => cases splice
      | item _ inside later =>
          cases later
          cases inside with
          | constant _ dotted => cases dotted _ _ _ rfl
          | unquoted items wrapped =>
              cases items
              cases wrapped
              exact ⟨_, rfl, rfl⟩
          | list items whole _ =>
              cases items
              cases whole

theorem startingThere_starts {depth : Nat} {mode : Reading} {value : Value} {form : Form}
    {before compiled : World} {reading : Perform}
    (ran : Form.read reading depth mode .start value before = .ok form compiled) :
    (startingThere form).Starts form where
  closed := (Form.tame_read depth mode .start value).held ran
  program := by simp [startingThere, starting, Function.program, Function.code]
  begins := rfl
  hasScope := Nat.one_pos
  base := Nat.le_refl 0

theorem evaluates_variableX {host : Host} {perform : Perform} {site : Site}
    (scopes : site.scopes = [Store.global]) (captures : site.function.captures = [])
    {memory : Memory} (same : memory.store = leftScope) :
    Evaluates host perform site memory (.operands [.variable variableX]) (.values [.int 7]) memory := by
  have bound : leftScope.lookupPlain [Store.global] [] variableX = .ok (.int 7) := rfl
  have looked : memory.store.lookup site.scopes site.function.captures variableX =
      (.ok (.int 7), memory.store) := by
    rw [scopes, captures, Store.lookup_plain _ _ _ (by decide), same, bound]
  have first : Evaluates host perform site memory (.expression (.variable variableX))
      (.values [.int 7]) memory := .lookup looked
  exact .operand first .noOperand

theorem read_of_some {body : Machine Form} {world : World} (some : (body.run' world).isSome) :
    ∃ form after, body world = .ok form after := by
  cases ran : body world with
  | ok form after => exact ⟨form, after, rfl⟩
  | error stop after =>
      delta EStateM.run' EStateM.run at some
      rw [ran] at some
      cases some

theorem literals_apart_leftScope :
    let reading := Machine.perform .none 0
    Host.none.Acts .all True ∧ firstNames.Known leftScope ∧
      ((leftScope.scope 1).lookup 0 = some (.int 1) ∧
        ((leftScope.restored firstNames firstNames).scope 1).lookup 0 = none) ∧
      (∃ form compiled after,
        Form.read reading 3 .form .start (.array 0) (startingThere .nil) = .ok form compiled ∧
        RunsTo .none reading (startingThere form) (form.code .start).length (.values [.array 1]) after ∧
        after.store.array 1 = #[.int 7]) ∧
      ∃ form compiled after later mark,
        Form.read reading 3 .template .start unquotedX (startingThere .nil) = .ok form compiled ∧
        after.Agrees firstNames later ∧
        RunsTo .none reading (startingThere form) (form.code .start).length
          (.values [.pair mark (.int 7) .nil]) after ∧
        RunsTo .none reading
          { startingThere form with store := leftScope.restored firstNames firstNames }
          (form.code .start).length (.values [.pair mark (.int 7) .nil]) later := by
  intro reading
  have hosted : Host.none.Acts .all True := fun _ _ _ => .result _
  have known : firstNames.Known (startingThere .nil).store := known_leftScope
  refine ⟨hosted, known, ⟨rfl, by decide +kernel⟩, ?_, ?_⟩
  · obtain ⟨form, compiled, ran⟩ : ∃ form compiled,
        Form.read reading 3 .form .start (.array 0) (startingThere .nil) = .ok form compiled :=
      read_of_some (by decide +kernel)
    obtain ⟨literals, _⟩ := literals_apart hosted known
    obtain ⟨forms, read, comes⟩ := literals 0 ran
    cases read with
    | cons first none =>
        cases none
        obtain rfl := Form.wasRead_variable rfl (by decide) first
        have starts := startingThere_starts ran
        obtain ⟨after, runs, made⟩ := comes reading (startingThere form) [.int 7] _ starts
          (evaluates_variableX rfl rfl rfl) ((resolves_leftScope rfl rfl rfl rfl).finds (by decide))
        exact ⟨form, compiled, after, ran, runs, by rw [made]; rfl⟩
  · obtain ⟨form, compiled, ran⟩ : ∃ form compiled,
        Form.read reading 3 .template .start unquotedX (startingThere .nil) = .ok form compiled :=
      read_of_some (by decide +kernel)
    obtain ⟨_, templates⟩ := literals_apart hosted known
    obtain ⟨holes, template, read, comes⟩ := templates unquotedX ran
    obtain ⟨hole, rfl, rfl⟩ := template_unquotedX template
    obtain rfl := Form.wasRead_variable rfl (by decide) (read _ (List.mem_singleton_self _))
    have starts := startingThere_starts ran
    let world := startingThere (.call (firstNames.symbol .concat)
      [.call (firstNames.symbol .list) [.variable variableX]])
    have resolves : world.site.Resolves firstNames world.memory :=
      resolves_leftScope rfl rfl rfl rfl
    have item : Evaluates .none reading world.site world.memory (.operands [.variable variableX])
        (.values [.int 7]) world.memory := evaluates_variableX rfl rfl rfl
    obtain ⟨listed, evaluatesList, madeList⟩ := evaluates_list item (resolves.finds (by decide))
    have stays : world.site.Resolves firstNames listed :=
      resolves_leftScope rfl rfl (by rw [madeList]; rfl) (by rw [madeList]; rfl)
    have joins : Standard.concat ∈ joining := by decide
    have makes (world : World) (same : world.store = listed.store) :
        callNative .none reading Standard.concat.name (.standard .concat) [.pair 0 (.int 7) .nil] world =
          .ok (listed.store.newList [.int 7]).1
            { world with store := (listed.store.newList [.int 7]).2 } := by
      rw [← same]
      rfl
    obtain ⟨after, evaluatesConcat, _⟩ :=
      evaluates_named joins (.operand evaluatesList .noOperand) (stays.finds joins) makes
    obtain ⟨onValue, _⟩ := comes reading world firstNames starts (by decide +kernel)
      (fun _ => function_leftScope) resolves
      (List.forall_mem_singleton.mpr (unconcerned_variable (by decide) (by decide)))
    obtain ⟨later, agrees, runs, runsThere⟩ := onValue _ after evaluatesConcat
    exact ⟨_, compiled, after, later, _, ran, agrees, runs, runsThere⟩

end Literals

end Machine

namespace Interpreter

open Machine

/-- Where a program binds `array` or `list` to a number, literals and templates that come to arrays and
lists elsewhere call that number. -/
theorem literals_see_bindings :
    let start := fresh ⟨10000, 32, false, false, false⟩
    let comesTo (source : String) : Option (Except Error String) :=
      (attempt do
        let value ← evalText .none 30 source
        readStore fun store => store.text value : Machine (Except Error String)).run' start
    comesTo "[1 2]" = some (.ok "[1 2]") ∧
      comesTo "(let [array 1] [1 2])" = some (.error (.type (.namedNotFunction "array" .int))) ∧
      comesTo "(syntax-quote (a))" = some (.ok "(a)") ∧
      comesTo "(let [list 1] (syntax-quote (a)))" =
        some (.error (.type (.namedNotFunction "list" .int))) := by
  decide +kernel

end Interpreter

end StackLisp
