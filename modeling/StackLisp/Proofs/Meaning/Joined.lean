import StackLisp.Proofs.Meaning.Substitution

/-!
What list templates build. The parts of a template are evaluated one after the other, and `concat` joins
what they come to. Parts that are not spliced in are lists of one item by then, but `concat` takes the
kind of what it makes from the first sequence, and that may be one that is spliced in: a template that
begins with an array that is spliced in comes to an array.
-/

namespace StackLisp

inductive Segment where
  | element (value : Value)
  | spliced (sequence : Value)

namespace Segment

def items (store : Store) : Segment → Except Error (List Value)
  | .element value => .ok [value]
  | .spliced sequence => store.sequenceItems sequence

def Contain (store : Store) (segments : List Segment) (items : List Value) : Prop :=
  ∃ pieces, List.Forall₂ (fun segment piece => segment.items store = .ok piece) segments pieces ∧
    items = pieces.flatten

def listed : List Segment → Bool
  | .spliced sequence :: _ => sequence.isList
  | _ => true

def Given (sequence : Value) : Segment → Prop
  | .element value => sequence.items? = some [value]
  | .spliced whole => whole = sequence

theorem Given.items {store : Store} {sequence : Value} {segment : Segment} {piece : List Value}
    (given : Given sequence segment) (held : store.sequenceItems sequence = .ok piece) :
    segment.items store = .ok piece := by
  cases segment with
  | element value =>
      have whole : sequence.items? = some [value] := given
      rw [Store.sequenceItems_of_items? whole] at held
      exact held
  | spliced whole =>
      cases given
      exact held

theorem contain_of_given {store : Store} {sequences : List Value} {segments : List Segment}
    {pieces : List (List Value)} (given : List.Forall₂ Given sequences segments)
    (held : List.Forall₂ (fun sequence piece => store.sequenceItems sequence = .ok piece)
      sequences pieces) :
    Contain store segments pieces.flatten := by
  induction given generalizing pieces with
  | nil =>
      cases held
      exact ⟨[], .nil, rfl⟩
  | cons first _ ih =>
      cases held with
      | @cons _ piece _ pieces heldFirst heldLater =>
          obtain ⟨others, items, same⟩ := ih heldLater
          refine ⟨piece :: others, .cons (first.items heldFirst) items, ?_⟩
          rw [List.flatten_cons, List.flatten_cons, same]

end Segment

def Pattern.parts : Pattern → Parts
  | .sequence _ parts => parts
  | _ => .nil

namespace Machine

theorem allItems_ok {sequences items : List Value} {world after : World}
    (ran : Native.allItems sequences world = .ok items after) :
    ∃ pieces, List.Forall₂ (fun sequence piece => world.store.sequenceItems sequence = .ok piece)
      sequences pieces ∧ items = pieces.flatten ∧ after = world := by
  induction sequences generalizing items after with
  | nil =>
      cases ran
      exact ⟨[], .nil, rfl, rfl⟩
  | cons sequence later ih =>
      simp only [Native.allItems] at ran
      obtain ⟨piece, between, asked, rest⟩ := Form.bind_ok ran
      obtain ⟨others, last, joined, ended⟩ := Form.bind_ok rest
      cases ended
      cases held : world.store.sequenceItems sequence with
      | error cause =>
          simp only [ask, bind_apply, readStore_apply, held] at asked
          cases asked
      | ok found =>
          simp only [ask, bind_apply, readStore_apply, held] at asked
          cases asked
          obtain ⟨pieces, others, rfl, rfl⟩ := ih joined
          exact ⟨piece :: pieces, .cons held others, rfl, rfl⟩

structure Joined (segments : List Segment) (before : Store) (value : Value) (after : Store) : Prop where
  list : Segment.listed segments = true →
    ∃ items, Segment.Contain before segments items ∧ value.items? = some items
  other : Segment.listed segments = false →
    (∃ ref items, Segment.Contain before segments items ∧ value = .array ref ∧ after.Has ref items) ∨
      ∃ s, value = .text s

theorem concat_joined {host : Host} {perform : Perform} {sequences : List Value}
    {segments : List Segment} {value : Value} {world after : World}
    (given : List.Forall₂ Segment.Given sequences segments)
    (ran : callNative host perform Standard.concat.name (.standard .concat) sequences world =
      .ok value after) :
    Joined segments world.store value after.store := by
  replace ran : Native.concat Standard.concat.name sequences world = .ok value after := ran
  have list (ran : (do newList (← Native.allItems sequences) : Machine Value) world = .ok value after) :
      ∃ items, Segment.Contain world.store segments items ∧ value.items? = some items := by
    obtain ⟨items, between, joined, made⟩ := Form.bind_ok ran
    cases made
    obtain ⟨pieces, held, rfl, _⟩ := allItems_ok joined
    exact ⟨_, Segment.contain_of_given given held, Store.items?_newList _ _⟩
  cases given with
  | nil => exact ⟨fun _ => list ran, (fun never => by cases never)⟩
  | @cons sequence segment _ later first rest =>
      cases sequence with
      | nil | pair =>
          have listed : Segment.listed (segment :: later) = true := by
            cases segment with
            | element => rfl
            | spliced =>
                cases first
                rfl
          refine ⟨fun _ => list ran, fun never => ?_⟩
          rw [listed] at never
          cases never
      | array ref =>
          cases segment with
          | element => cases first
          | spliced =>
              cases first
              obtain ⟨_, _, joined, made⟩ := Form.bind_ok ran
              cases made
              obtain ⟨pieces, held, rfl, rfl⟩ := allItems_ok joined
              refine ⟨(fun never => by cases never), fun _ => .inl ⟨_, pieces.flatten, ?_, rfl, ?_⟩⟩
              · exact Segment.contain_of_given (.cons rfl rest) held
              · simp [Store.Has, Store.array]
      | text s =>
          cases segment with
          | element => cases first
          | spliced =>
              cases first
              obtain ⟨_, _, _, made⟩ := Form.bind_ok ran
              cases made
              exact ⟨(fun never => by cases never), fun _ => .inr ⟨_, rfl⟩⟩
      | _ => cases ran

section Keeps

variable (host : Host) (perform : Perform) (naming : Naming) (site : Site)

def Keeps (task : Task) : Prop :=
  ∀ memory values after, memory.Plain → site.Resolves naming memory →
    Evaluates host perform site memory task (.values values) after → site.Resolves naming after

variable {host perform naming site}

theorem keeps_constant (value : Value) :
    Keeps host perform naming site (.expression (.constant value)) := by
  intro memory values after _ resolves evaluates
  cases evaluates with
  | constant => exact resolves

theorem keeps_variable {symbol : Symbol} (noPath : symbol.isPath = false) :
    Keeps host perform naming site (.expression (.variable symbol)) := by
  intro memory values after _ resolves evaluates
  generalize comes : Outcome.values values = outcome at evaluates
  cases evaluates with
  | lookup found =>
      rw [Store.lookup_plain _ _ _ noPath] at found
      cases found
      exact resolves
  | first => cases comes

theorem keeps_operands {expressions : List Expression}
    (parts : ∀ part ∈ expressions, Keeps host perform naming site (.expression part)) :
    Keeps host perform naming site (.operands expressions) := by
  induction expressions with
  | nil =>
      intro memory values after _ resolves evaluates
      cases evaluates with
      | noOperand => exact resolves
  | cons first later ih =>
      intro memory values after plain resolves evaluates
      obtain ⟨front, back⟩ := List.forall_mem_cons.mp parts
      cases evaluates with
      | operand evaluatesFirst evaluatesRest =>
          exact ih back _ _ _ (evaluates_plain evaluatesFirst plain)
            (front _ _ _ plain resolves evaluatesFirst) evaluatesRest

/-- A call by one of the names is a call of the standard function, once its arguments are there. -/
theorem call_given {native : Standard} (joins : native ∈ joining) {arguments : List Expression}
    {memory after : Memory} {results : List Value} (plain : memory.Plain)
    (keeps : Keeps host perform naming site (.operands arguments))
    (resolves : site.Resolves naming memory)
    (evaluates : Evaluates host perform site memory
      (.expression (.call (naming.symbol native) arguments)) (.values results) after) :
    ∃ values given, Evaluates host perform site memory (.operands arguments) (.values values) given ∧
      given.Plain ∧ site.Resolves naming given ∧
      Evaluates host perform site given (.call (.standard native) values) (.values results) after := by
  cases evaluates with
  | @call _ _ _ _ values given _ _ _ _ operands looked called =>
      have stays := keeps _ _ _ plain resolves operands
      obtain ⟨ref, found, standard⟩ := stays.finds joins
      rw [found] at looked
      cases looked
      rw [standard] at called
      exact ⟨values, given, operands, evaluates_plain operands plain, stays, called⟩

theorem standard_ran {native : Standard} (joins : native ∈ joining) {given after : Memory}
    {values results : List Value} (plain : given.Plain)
    (evaluates : Evaluates host perform site given (.call (.standard native) values) (.values results)
      after) :
    ∃ value world ended, results = [value] ∧ world.store = given.store ∧
      callNative host perform native.name (.standard native) values world = .ok value ended ∧
      after = given.behind site.config native values value ended.store ∧
      ended.store.scopes = given.store.scopes ∧ ended.store.functions = given.store.functions := by
  cases evaluates with
  | @native _ _ _ _ _ _ _ value behind made accepted gives =>
      cases made
      let before := given.observed site.config (.called native.name values) values
      have plainBefore : before.Plain := plain.observed _ _ _
      have same : before.store = given.store := Memory.observed_store _ _ _ _
      obtain ⟨ended, ran, _, _, told⟩ := gives (site.world before) (site.world_site before)
        (site.world_memory plainBefore)
      obtain ⟨store, rfl, scopes, functions, _⟩ :=
        blind_joining joins host perform native.name values _ value ended ran
      refine ⟨value, site.world before, _, rfl, same, ran, ?_, ?_, ?_⟩
      · rw [← told]
        exact congrArg (fun journal => Memory.observed ⟨store, journal⟩ _ _ _) plainBefore
      · exact scopes.trans (congrArg Store.scopes same)
      · exact functions.trans (congrArg Store.functions same)
  | returns made => cases made

theorem keeps_call {native : Standard} (joins : native ∈ joining) {arguments : List Expression}
    (parts : ∀ part ∈ arguments, Keeps host perform naming site (.expression part)) :
    Keeps host perform naming site (.expression (.call (naming.symbol native) arguments)) := by
  intro memory results after plain resolves evaluates
  obtain ⟨values, given, _, plainGiven, stays, called⟩ :=
    call_given joins plain (keeps_operands parts) resolves evaluates
  obtain ⟨_, _, ended, _, _, _, rfl, scopes, functions⟩ := standard_ran joins plainGiven called
  unfold Site.Resolves
  rw [Memory.behind_store]
  exact stays.with scopes functions

theorem listed_alone {expression : Expression} {memory after : Memory} {results : List Value}
    (keeps : Keeps host perform naming site (.expression expression)) (plain : memory.Plain)
    (resolves : site.Resolves naming memory)
    (evaluates : Evaluates host perform site memory
      (.expression (.call (naming.symbol .list) [expression])) (.values results) after) :
    ∃ value between,
      Evaluates host perform site memory (.expression expression) (.values [value]) between ∧
      results = [(between.store.newList [value]).1] ∧
      after = between.behind site.config .list [value] (between.store.newList [value]).1
        (between.store.newList [value]).2 := by
  have joins : Standard.list ∈ joining := by decide
  obtain ⟨values, between, operands, plainBetween, _, called⟩ :=
    call_given joins plain (keeps_operands (List.forall_mem_singleton.mpr keeps)) resolves evaluates
  cases operands with
  | operand front none =>
      cases none
      obtain ⟨_, _, _, rfl, same, ran, rfl, _⟩ := standard_ran joins plainBetween called
      cases ran
      rw [same]
      exact ⟨_, between, front, rfl, rfl⟩

mutual

theorem pattern_keeps {pattern : Pattern}
    (keeps : ∀ hole ∈ pattern.holes, Keeps host perform naming site (.expression hole.expression)) :
    Keeps host perform naming site (.expression (pattern.form naming).expression) := by
  match pattern with
  | .whole value => exact keeps_constant value
  | .hole _ => exact keeps _ (List.mem_singleton_self _)
  | .sequence .list _ => exact keeps_call (by decide) (parts_keep .list keeps)
  | .sequence .array _ =>
      refine keeps_call (by decide) (List.forall_mem_cons.mpr ⟨?_, parts_keep .array keeps⟩)
      exact keeps_call (by decide) fun _ member => nomatch member

theorem parts_keep (collection : Collection) {parts : Parts}
    (keeps : ∀ hole ∈ parts.holes, Keeps host perform naming site (.expression hole.expression)) :
    ∀ part ∈ Form.expressions (parts.forms naming collection),
      Keeps host perform naming site (.expression part) := by
  match parts with
  | .nil => exact fun _ member => nomatch member
  | .item first later =>
      obtain ⟨inside, behind⟩ := List.forall_mem_append.mp keeps
      refine List.forall_mem_cons.mpr ⟨?_, parts_keep collection behind⟩
      exact keeps_call collection.native_joins (List.forall_mem_singleton.mpr (pattern_keeps inside))
  | .splice form later =>
      obtain ⟨one, behind⟩ := List.forall_mem_cons.mp keeps
      exact List.forall_mem_cons.mpr ⟨one, parts_keep collection behind⟩

end

variable (host perform naming site)

inductive Gathered : Memory → Parts → List Segment → Memory → Prop
  | nil {memory : Memory} : Gathered memory .nil [] memory
  | item {memory between after : Memory} {first : Pattern} {later : Parts} {value : Value}
      {segments : List Segment} :
    Evaluates host perform site memory (.expression (first.form naming).expression) (.values [value])
      between →
    Gathered (between.behind site.config .list [value] (between.store.newList [value]).1
      (between.store.newList [value]).2) later segments after →
    Gathered memory (.item first later) (.element value :: segments) after
  | splice {memory between after : Memory} {form : Form} {later : Parts} {sequence : Value}
      {segments : List Segment} :
    Evaluates host perform site memory (.expression form.expression) (.values [sequence]) between →
    Gathered between later segments after →
    Gathered memory (.splice form later) (.spliced sequence :: segments) after

variable {host perform naming site}

theorem gathered_of_operands {parts : Parts} {memory given : Memory} {sequences : List Value}
    (keeps : ∀ hole ∈ parts.holes, Keeps host perform naming site (.expression hole.expression))
    (plain : memory.Plain) (resolves : site.Resolves naming memory)
    (evaluates : Evaluates host perform site memory
      (.operands (Form.expressions (parts.forms naming .list))) (.values sequences) given) :
    ∃ segments, Gathered host perform naming site memory parts segments given ∧
      List.Forall₂ Segment.Given sequences segments := by
  match parts with
  | .nil =>
      cases evaluates with
      | noOperand => exact ⟨[], .nil, .nil⟩
  | .item first later =>
      obtain ⟨inside, behind⟩ := List.forall_mem_append.mp keeps
      have keepsFirst := pattern_keeps inside
      cases evaluates with
      | operand front back =>
          have seen := keeps_call (by decide) (List.forall_mem_singleton.mpr keepsFirst) _ _ _ plain
            resolves front
          have plainBehind := evaluates_plain front plain
          obtain ⟨value, between, evaluatesFirst, one, rfl⟩ :=
            listed_alone keepsFirst plain resolves front
          cases one
          obtain ⟨segments, gathered, given⟩ := gathered_of_operands behind plainBehind seen back
          exact ⟨_, .item evaluatesFirst gathered, .cons (Store.items?_newList _ _) given⟩
  | .splice form later =>
      obtain ⟨one, behind⟩ := List.forall_mem_cons.mp keeps
      cases evaluates with
      | operand front back =>
          obtain ⟨segments, gathered, given⟩ := gathered_of_operands behind (evaluates_plain front plain)
            (one _ _ _ plain resolves front) back
          exact ⟨_, .splice front gathered, .cons rfl given⟩

end Keeps

theorem parts_of_list {reading : Perform} {context : Context} {depth : Nat} {template : Value}
    {items : List Value} {pattern : Pattern} {before compiled : World}
    (proper : template.items? = some items) (built : unwrapped? "unquote" items = none)
    (led : Form.TemplateRead reading context depth template before pattern compiled) :
    (∃ inner, Form.PartsRead reading context inner items before pattern.parts compiled) ∧
      (pattern = .sequence .list pattern.parts ∨ pattern = .whole .nil) := by
  cases led with
  | whole noArray dotted =>
      cases template with
      | nil =>
          cases proper
          exact ⟨⟨0, .nil⟩, .inr rfl⟩
      | pair mark head tail =>
          rw [dotted _ _ _ rfl] at proper
          cases proper
      | _ => cases proper
  | hole whole unquoted _ =>
      rw [whole] at proper
      cases proper
      rw [unquoted] at built
      cases built
  | list whole _ parts =>
      rw [whole] at proper
      cases proper
      exact ⟨⟨_, parts⟩, .inl rfl⟩
  | array _ => cases proper

section Lists

variable {host : Host} {hears : Prop} {naming : Naming} {level depth : Nat} {context : Context}
  {before : World} {quoted template : Value} {head : Symbol} {items : List Value}

/-- What `(syntax-quote template)` comes to for a list, if it comes to a value. The parts are evaluated
in their order, and what they come to is joined: to a list of all the items, unless the first part is to
be spliced in and does not come to a list. The forms must leave the names as they are seen. -/
theorem listTemplate_joined (hosted : host.Acts .all hears) (known : naming.Known before.store)
    (shape : quoted.items? = some [.symbol head, template]) (plain : head.colon = false)
    (named : head.name = "syntax-quote") (proper : template.items? = some items)
    (built : unwrapped? "unquote" items = none) :
    let reading := Machine.perform host level
    (∀ form compiled, Form.read reading (depth + 1) .form context quoted before = .ok form compiled ↔
      ∃ pattern, Pattern.form naming pattern = form ∧
        Form.TemplateRead reading context depth template before pattern compiled) ∧
    ∀ pattern compiled, Form.TemplateRead reading context depth template before pattern compiled →
      (∃ inner, Form.PartsRead reading context inner items before pattern.parts compiled) ∧
      ∀ perform (site : Site) memory value after, memory.Plain → site.Resolves naming memory →
        (∀ hole ∈ pattern.parts.holes,
          Keeps host perform naming site (.expression hole.expression)) →
        Evaluates host perform site memory (.expression (pattern.form naming).expression)
          (.values [value]) after →
        ComesTo host perform site memory (pattern.form naming) value after ∧
          ∃ segments given, Gathered host perform naming site memory pattern.parts segments given ∧
            Joined segments given.store value after.store := by
  refine ⟨fun form compiled => read_quoted_iff hosted known shape plain named, ?_⟩
  intro pattern compiled led
  obtain ⟨read, made⟩ := parts_of_list proper built led
  refine ⟨read, fun perform site memory value after whole resolves keeps evaluates => ?_⟩
  refine ⟨comesTo_of_evaluates evaluates, ?_⟩
  rcases made with isList | rfl
  · rw [isList] at evaluates
    have joins : Standard.concat ∈ joining := by decide
    obtain ⟨sequences, given, operands, plainGiven, _, called⟩ :=
      call_given joins whole (keeps_operands (parts_keep .list keeps)) resolves evaluates
    obtain ⟨segments, gathered, stand⟩ := gathered_of_operands keeps whole resolves operands
    obtain ⟨_, world, ended, one, same, made, rfl, _⟩ := standard_ran joins plainGiven called
    cases one
    have joined := concat_joined stand made
    rw [same] at joined
    rw [Memory.behind_store]
    exact ⟨segments, given, gathered, joined⟩
  · cases evaluates with
    | constant =>
        refine ⟨[], memory, .nil, ⟨fun _ => ⟨[], ⟨[], .nil, rfl⟩, rfl⟩, fun never => ?_⟩⟩
        cases never

/-! A template that splices in an array behind a value. -/

def numbersScope : Store := { spliceScope with arrays := #[#[.int 1, .int 2]] }

def splicedTemplate : Value :=
  couple (couple (symbolNamed "unquote" 4) (.symbol variableX))
    (couple (symbolNamed "unquote-splicing" 5) (.array 0))

def splicedPattern : Pattern :=
  .sequence .list (.item (.hole (.variable variableX))
    (.splice (.call (firstNames.symbol .array) [.constant (.int 1), .constant (.int 2)]) .nil))

theorem spliced_led : Form.TemplateRead (Machine.perform .none 0) .start 4 splicedTemplate
    (startingWith numbersScope .nil) splicedPattern (startingWith numbersScope .nil) := by
  have known : firstNames.Known (startingWith numbersScope .nil).store := known_spliceScope
  have interned := Form.intern_known .array (by decide) known
  let numbers : List Form := [.constant (.int 1), .constant (.int 2)]
  have made : (do return .call (← intern "array") numbers : Machine Form)
      (startingWith numbersScope .nil) =
        .ok (.call (firstNames.symbol .array) numbers) (startingWith numbersScope .nil) :=
    Form.bind_of_ok interned
  exact .list rfl rfl (.item rfl (.hole rfl rfl rfl) (.splice rfl made .nil))

theorem spliced_keeps {host : Host} {perform : Perform} {site : Site} :
    ∀ hole ∈ splicedPattern.parts.holes,
      Keeps host perform firstNames site (.expression hole.expression) := by
  refine List.forall_mem_cons.mpr ⟨keeps_variable (by decide), List.forall_mem_singleton.mpr ?_⟩
  refine keeps_call (by decide) (List.forall_mem_cons.mpr ⟨keeps_constant _, ?_⟩)
  exact List.forall_mem_singleton.mpr (keeps_constant _)

theorem spliced_evaluates {host : Host} {perform : Perform} {site : Site} {memory : Memory}
    (scopes : site.scopes = [Store.global]) (captures : site.function.captures = [])
    (same : memory.store = numbersScope) :
    ∃ value after, Evaluates host perform site memory
        (.expression (splicedPattern.form firstNames).expression) (.values [value]) after ∧
      value.items? = some [.int 7, .int 1, .int 2] := by
  have seen {later : Memory} (scopesSame : later.store.scopes = leftScope.scopes)
      (functions : later.store.functions = leftScope.functions) : site.Resolves firstNames later :=
    resolves_leftScope scopes captures scopesSame functions
  have bound : memory.store.lookup site.scopes site.function.captures variableX =
      (.ok (.int 7), memory.store) := by
    rw [scopes, captures, Store.lookup_plain _ _ _ (by decide), same]
    rfl
  have first : Evaluates host perform site memory (.operands [.variable variableX]) (.values [.int 7])
      memory := .operand (.lookup bound) .noOperand
  obtain ⟨listed, evaluatesList, madeList⟩ :=
    evaluates_list first ((seen (by rw [same]; rfl) (by rw [same]; rfl)).finds (by decide))
  rw [same] at madeList
  have numbers : Evaluates host perform site listed (.operands [.constant (.int 1), .constant (.int 2)])
      (.values [.int 1, .int 2]) listed := .operand .constant (.operand .constant .noOperand)
  obtain ⟨arrayed, evaluatesArray, madeArray⟩ :=
    evaluates_array numbers ((seen (by rw [madeList]; rfl) (by rw [madeList]; rfl)).finds (by decide))
  rw [madeList] at madeArray evaluatesArray
  have joins : Standard.concat ∈ joining := by decide
  have stays := seen (by rw [madeArray]; rfl) (by rw [madeArray]; rfl)
  have makes (world : World) (known : world.store = arrayed.store) :
      callNative host perform Standard.concat.name (.standard .concat)
          [(numbersScope.newList [.int 7]).1, .array 1] world =
        .ok (arrayed.store.newList [.int 7, .int 1, .int 2]).1
          { world with store := (arrayed.store.newList [.int 7, .int 1, .int 2]).2 } := by
    have added : world.store.sequenceItems (.array 1) = .ok [.int 1, .int 2] := by
      rw [known, madeArray]
      rfl
    have held : List.Forall₂ (fun sequence piece => world.store.sequenceItems sequence = .ok piece)
        [(numbersScope.newList [.int 7]).1, .array 1] [[.int 7], [.int 1, .int 2]] :=
      .cons (Store.sequenceItems_of_items? (Store.items?_newList _ _)) (.cons added .nil)
    rw [← known]
    exact concat_list host perform held fun _ first => by cases first; rfl
  obtain ⟨after, evaluates, _⟩ := evaluates_named joins
    (.operand evaluatesList (.operand evaluatesArray .noOperand)) (stays.finds joins) makes
  exact ⟨_, after, evaluates, Store.items?_newList _ _⟩

theorem listTemplate_joined_spliced :
    let reading := Machine.perform .none 0
    let quoted := couple (symbolNamed "syntax-quote" 7) splicedTemplate
    let form := splicedPattern.form firstNames
    let before := startingWith numbersScope .nil
    let world := startingWith numbersScope form
    Form.read reading 5 .form .start quoted before = .ok form before ∧
      ∃ value after segments given, RunsTo .none reading world (form.code .start).length
          (.values [value]) after ∧
        value.items? = some [.int 7, .int 1, .int 2] ∧
        Gathered .none reading firstNames world.site world.memory splicedPattern.parts segments given ∧
        Joined segments given.store value after.store := by
  intro reading quoted form before world
  have hosted : Host.none.Acts .all True := fun _ _ _ => .result _
  have known : firstNames.Known before.store := known_spliceScope
  obtain ⟨reads, comes⟩ := @listTemplate_joined .none True firstNames 0 4 .start before quoted
    splicedTemplate ⟨"syntax-quote", 7, false⟩ _ hosted known rfl rfl rfl rfl rfl
  have ran := (reads form _).mpr ⟨splicedPattern, rfl, spliced_led⟩
  have resolves : world.site.Resolves firstNames world.memory := resolves_leftScope rfl rfl rfl rfl
  have store : world.memory.store = numbersScope := rfl
  obtain ⟨value, after, evaluates, items⟩ :=
    @spliced_evaluates .none reading world.site world.memory rfl rfl store
  obtain ⟨_, joins⟩ := comes splicedPattern _ spliced_led
  obtain ⟨comesTo, segments, given, gathered, joined⟩ := joins reading world.site world.memory value
    after (Memory.plain_world world) resolves spliced_keeps evaluates
  exact ⟨ran, value, after, segments, given, comesTo.runs world (startingWith_starts ran) rfl rfl, items,
    gathered, joined⟩

end Lists

end Machine

namespace Interpreter

open Machine

/-- Templates that are lists come to an array and to a text, if these are spliced in first. -/
theorem splices_lead :
    let start := fresh ⟨10000, 32, false, false, false⟩
    let comesTo (source : String) : Option (Except Error (String × Bool)) :=
      (attempt do
        let value ← evalText .none 30 source
        readStore fun store => (store.text value, value.isList) :
          Machine (Except Error (String × Bool))).run' start
    comesTo "(syntax-quote ((unquote-splicing [1 2]) 3))" = some (.ok ("[1 2 3]", false)) ∧
      comesTo "(syntax-quote ((unquote-splicing (list 1 2)) 3))" = some (.ok ("(1 2 3)", true)) ∧
      comesTo "(syntax-quote (0 (unquote-splicing [1 2]) 3))" = some (.ok ("(0 1 2 3)", true)) ∧
      comesTo "(syntax-quote ((unquote-splicing \"ab\")))" = some (.ok ("\"ab\"", false)) := by
  decide +kernel

end Interpreter

end StackLisp
