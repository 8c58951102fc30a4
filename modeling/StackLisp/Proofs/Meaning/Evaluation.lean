import StackLisp.Machine.Step
import StackLisp.Proofs.Meaning.Expression

/-!
What expressions come to, by walking their trees: no instruction, no place in any code and no stack
of values is known here. An evaluation has its open scopes and its running function around it, and
changes the store and the journal.

Functions that are native do what they do to the machine, of which an evaluation sees only a part;
it can go on with what they do if that is the same whatever the rest of the machine holds.
-/

namespace StackLisp

structure Site where
  config : Config
  scopes : List ScopeRef
  function : Function
  depth : Nat
  base : Nat
  nesting : Nat
  reader : Option Reader

structure Memory where
  store : Store
  journal : Journal

def Journal.plain (journal : Journal) : Journal :=
  { journal with log := journal.log.filter fun entry => entry.1 != .trace }

def World.site (world : World) : Site :=
  { config := world.config
    scopes := world.env.scopes.elements
    function := world.env.function
    depth := world.env.calls.size
    base := world.env.base
    nesting := world.env.nesting
    reader := world.env.reader }

def World.memory (world : World) : Memory := ⟨world.store, world.journal.plain⟩

def Stop.untraced : Stop → Stop
  | .error (.panic native message _) => .error (.panic native message "")
  | other => other

inductive Interruption where
  | leaves (exit : Exit)
  | stops (stop : Stop)
  deriving DecidableEq, Repr

inductive Outcome where
  | values (values : List Value)
  | interrupted (way : Interruption)
  deriving DecidableEq, Repr

namespace Outcome

def failure (cause : Error) : Outcome := .interrupted (.stops (.error cause))

def ofExcept : Except Error Value → Outcome
  | .ok value => .values [value]
  | .error cause => failure cause

def endsRound : Outcome → Bool
  | .values [] => true
  | .interrupted (.leaves .nextRound) => true
  | _ => false

end Outcome

namespace Site

def innermost (site : Site) : ScopeRef := site.scopes.head?.getD Store.global

def inScope (site : Site) (ref : ScopeRef) : Site := { site with scopes := ref :: site.scopes }

def called (site : Site) (function : Function) (ref : ScopeRef) : Site :=
  { site with scopes := ref :: site.scopes, function, depth := site.depth + 1 }

end Site

namespace Store

def closure (store : Store) (site : Site) (ref : FunctionRef) : FunctionRef × Store :=
  store.newFunction
    ((store.function ref).closeOver (store.capturable global site.scopes) site.function)

def bindEach (store : Store) (ref : ScopeRef) : List (Symbol × Value) → Except Error Unit × Store
  | [] => (.ok (), store)
  | (symbol, value) :: later =>
    match store.bind ref symbol value with
    | (.ok _, store) => bindEach store ref later
    | (.error cause, store) => (.error cause, store)

def callScope (store : Store) (name : String) (parameters : List Parameter) (rest : Option Symbol)
    (arguments : List Value) : Except Error ScopeRef × Store :=
  match bindArguments store name parameters rest arguments with
  | .error cause => (.error cause, store)
  | .ok bound =>
    let (values, store) :=
      match rest with
      | some symbol =>
        let (surplus, store) := store.newList bound.surplus
        (bound.values ++ [(symbol, surplus)], store)
      | none => (bound.values, store)
    let (ref, store) := store.newScope (.empty name true)
    match store.bindEach ref values with
    | (.ok _, store) => (.ok ref, store)
    | (.error cause, store) => (.error cause, store)

end Store

namespace Memory

def withStore (memory : Memory) (store : Store) : Memory := { memory with store }

def observed (memory : Memory) (config : Config) (event : Event) (values : List Value) : Memory :=
  if config.observing then
    let texts := values.map memory.store.text
    { memory with
      journal := { memory.journal with events := memory.journal.events.push (event, texts) } }
  else memory

end Memory

section Native

variable {α : Type}

/-- Wherever the machine does this and an evaluation sees the same, it gives the same value and
changes the memory in the same way, and nothing else. -/
def Gives (site : Site) (memory : Memory) (body : Machine α) (value : α) (after : Memory) : Prop :=
  ∀ world : World, world.site = site → world.memory = memory →
    ∃ ended : World, body world = .ok value ended ∧ ended.config = world.config ∧
      ended.env = world.env ∧ ended.memory = after

def Halts (site : Site) (memory : Memory) (body : Machine α) (stop : Stop) (after : Memory) : Prop :=
  ∀ world : World, world.site = site → world.memory = memory →
    ∃ (found : Stop) (ended : World), body world = .error found ended ∧
      found.untraced = stop.untraced ∧ ended.memory = after

end Native

inductive Task where
  | expression (expression : Expression)
  | operands (expressions : List Expression)
  /-- symbols are bound one after the other, and a block sees all of them -/
  | bindings (symbols : List Symbol) (values contents : List Expression)
  | round (contents : List Expression)
  /-- a loop with a step between its rounds -/
  | cycle (test step : Expression) (contents : List Expression)
  /-- the same loop, from a step on -/
  | steps (test step : Expression) (contents : List Expression)
  | call (function : Function) (arguments : List Value)

def Task.first? : Task → Option Expression
  | .expression (.block (first :: _ :: _)) => some first
  | .expression (.choose test _ _) => some test
  | .expression (.conditions _ (first :: _ :: _)) => some first
  | .expression (.cases (test :: _ :: _)) => some test
  | .expression (.define _ value) => some value
  | .expression (.assign _ value) => some value
  | .expression (.whileLoop test _) => some test
  | .expression (.dispatch callee _) => some callee
  | .operands (first :: _) => some first
  | .bindings (_ :: _) (value :: _) _ => some value
  | .round (first :: _) => some first
  | .cycle test _ _ => some test
  | _ => none

open Machine

section Evaluation

variable (host : Host) (perform : Perform)

inductive Evaluates : Site → Memory → Task → Outcome → Memory → Prop
  | constant {site memory value} :
    Evaluates site memory (.expression (.constant value)) (.values [value]) memory
  | quote {site memory first later} :
    Evaluates site memory (.expression (.quote first later)) (.values [later.getLastD first]) memory
  | lookup {site memory symbol found store} :
    memory.store.lookup site.scopes site.function.captures symbol = (found, store) →
    Evaluates site memory (.expression (.variable symbol)) (.ofExcept found) (memory.withStore store)
  | function {site memory ref closed store} :
    memory.store.closure site ref = (closed, store) →
    Evaluates site memory (.expression (.function ref)) (.values [.function closed])
      (memory.withStore store)
  | leave {site memory exit} :
    Evaluates site memory (.expression (.leave exit)) (.interrupted (.leaves exit)) memory
  | first {site memory task part way after} :
    task.first? = some part →
    Evaluates site memory (.expression part) (.interrupted way) after →
    Evaluates site memory task (.interrupted way) after
  | emptyBlock {site memory} :
    Evaluates site memory (.expression (.block [])) (.values [.nil]) memory
  | lastOfBlock {site memory last outcome after} :
    Evaluates site memory (.expression last) outcome after →
    Evaluates site memory (.expression (.block [last])) outcome after
  | block {site memory first second later value between outcome after} :
    Evaluates site memory (.expression first) (.values [value]) between →
    Evaluates site between (.expression (.block (second :: later))) outcome after →
    Evaluates site memory (.expression (.block (first :: second :: later))) outcome after
  | choose {site memory test whenTrue whenFalse value between outcome after} :
    Evaluates site memory (.expression test) (.values [value]) between →
    Evaluates site between (.expression (if value.isTruthy then whenTrue else whenFalse)) outcome
      after →
    Evaluates site memory (.expression (.choose test whenTrue whenFalse)) outcome after
  | noCondition {site memory stopsOn} :
    Evaluates site memory (.expression (.conditions stopsOn [])) (.values [.bool !stopsOn]) memory
  | lastCondition {site memory stopsOn last outcome after} :
    Evaluates site memory (.expression last) outcome after →
    Evaluates site memory (.expression (.conditions stopsOn [last])) outcome after
  | settled {site memory stopsOn first second later value after} :
    Evaluates site memory (.expression first) (.values [value]) after → value.isTruthy = stopsOn →
    Evaluates site memory (.expression (.conditions stopsOn (first :: second :: later)))
      (.values [value]) after
  | nextCondition {site memory stopsOn first second later value between outcome after} :
    Evaluates site memory (.expression first) (.values [value]) between →
    value.isTruthy ≠ stopsOn →
    Evaluates site between (.expression (.conditions stopsOn (second :: later))) outcome after →
    Evaluates site memory (.expression (.conditions stopsOn (first :: second :: later))) outcome
      after
  | noCase {site memory} : Evaluates site memory (.expression (.cases [])) (.values [.nil]) memory
  | defaultCase {site memory default outcome after} :
    Evaluates site memory (.expression default) outcome after →
    Evaluates site memory (.expression (.cases [default])) outcome after
  | cases {site memory test chosen later value between outcome after} :
    Evaluates site memory (.expression test) (.values [value]) between →
    Evaluates site between (.expression (if value.isTruthy then chosen else .cases later)) outcome
      after →
    Evaluates site memory (.expression (.cases (test :: chosen :: later))) outcome after
  | define {site memory symbol expression value between bound store} :
    Evaluates site memory (.expression expression) (.values [value]) between →
    between.store.bind site.innermost symbol value = (bound, store) →
    Evaluates site memory (.expression (.define symbol expression))
      (.ofExcept (bound.map fun _ => value)) (between.withStore store)
  | assign {site memory symbol expression value between bound store} :
    Evaluates site memory (.expression expression) (.values [value]) between →
    between.store.assign site.scopes site.function.captures symbol value = (bound, store) →
    Evaluates site memory (.expression (.assign symbol expression))
      (.ofExcept (bound.map fun _ => value)) (between.withStore store)
  | bind {site memory symbols values contents ref store outcome after} :
    memory.store.newScope (.empty "let" false) = (ref, store) →
    Evaluates (site.inScope ref) (memory.withStore store) (.bindings symbols values contents) outcome
      after →
    Evaluates site memory (.expression (.bind symbols values contents)) outcome after
  | whileEnds {site memory test contents value after} :
    Evaluates site memory (.expression test) (.values [value]) after → value.isTruthy = false →
    Evaluates site memory (.expression (.whileLoop test contents)) (.values [.nil]) after
  | whileAgain {site memory test contents value tested round rounded outcome after} :
    Evaluates site memory (.expression test) (.values [value]) tested → value.isTruthy = true →
    Evaluates site tested (.round contents) round rounded → round.endsRound = true →
    Evaluates site rounded (.expression (.whileLoop test contents)) outcome after →
    Evaluates site memory (.expression (.whileLoop test contents)) outcome after
  | whileLeft {site memory test contents value tested after} :
    Evaluates site memory (.expression test) (.values [value]) tested → value.isTruthy = true →
    Evaluates site tested (.round contents) (.interrupted (.leaves .leaveLoop)) after →
    Evaluates site memory (.expression (.whileLoop test contents)) (.values [.nil]) after
  | whileStops {site memory test contents value tested stop after} :
    Evaluates site memory (.expression test) (.values [value]) tested → value.isTruthy = true →
    Evaluates site tested (.round contents) (.interrupted (.stops stop)) after →
    Evaluates site memory (.expression (.whileLoop test contents)) (.interrupted (.stops stop)) after
  | forStart {site memory start test step contents ref store way after} :
    memory.store.newScope (.empty "let" false) = (ref, store) →
    Evaluates (site.inScope ref) (memory.withStore store) (.expression start) (.interrupted way)
      after →
    Evaluates site memory (.expression (.forLoop start test step contents)) (.interrupted way) after
  | forEnds {site memory start test step contents ref store value started after} :
    memory.store.newScope (.empty "let" false) = (ref, store) →
    Evaluates (site.inScope ref) (memory.withStore store) (.expression start) (.values [value])
      started →
    Evaluates (site.inScope ref) started (.cycle test step contents) (.values []) after →
    Evaluates site memory (.expression (.forLoop start test step contents)) (.values [.nil]) after
  | forInterrupted {site memory start test step contents ref store value started way after} :
    memory.store.newScope (.empty "let" false) = (ref, store) →
    Evaluates (site.inScope ref) (memory.withStore store) (.expression start) (.values [value])
      started →
    Evaluates (site.inScope ref) started (.cycle test step contents) (.interrupted way) after →
    Evaluates site memory (.expression (.forLoop start test step contents)) (.interrupted way) after
  | call {site memory symbol arguments values given ref store outcome after} :
    Evaluates site memory (.operands arguments) (.values values) given →
    given.store.lookup site.scopes site.function.captures symbol = (.ok (.function ref), store) →
    Evaluates site (given.withStore store) (.call (store.function ref) values) outcome after →
    Evaluates site memory (.expression (.call symbol arguments)) outcome after
  | callUnbound {site memory symbol arguments values given cause store} :
    Evaluates site memory (.operands arguments) (.values values) given →
    given.store.lookup site.scopes site.function.captures symbol = (.error cause, store) →
    Evaluates site memory (.expression (.call symbol arguments)) (.failure cause)
      (given.withStore store)
  | callOther {site memory symbol arguments values given other store} :
    Evaluates site memory (.operands arguments) (.values values) given →
    given.store.lookup site.scopes site.function.captures symbol = (.ok other, store) →
    (∀ ref, other ≠ .function ref) →
    Evaluates site memory (.expression (.call symbol arguments))
      (.failure (.type (.namedNotFunction symbol.name (store.kindOf other)))) (given.withStore store)
  | callInterrupted {site memory symbol arguments way after} :
    Evaluates site memory (.operands arguments) (.interrupted way) after →
    Evaluates site memory (.expression (.call symbol arguments)) (.interrupted way) after
  | dispatch {site memory callee arguments ref between values given outcome after} :
    Evaluates site memory (.expression callee) (.values [.function ref]) between →
    Evaluates site between (.operands arguments) (.values values) given →
    Evaluates site given (.call (given.store.function ref) values) outcome after →
    Evaluates site memory (.expression (.dispatch callee arguments)) outcome after
  | dispatchOther {site memory callee arguments other between values given} :
    Evaluates site memory (.expression callee) (.values [other]) between →
    Evaluates site between (.operands arguments) (.values values) given →
    (∀ ref, other ≠ .function ref) →
    Evaluates site memory (.expression (.dispatch callee arguments))
      (.failure (.type (.notCallable (given.store.kindOf other) (given.store.text other)))) given
  | dispatchInterrupted {site memory callee arguments value between way after} :
    Evaluates site memory (.expression callee) (.values [value]) between →
    Evaluates site between (.operands arguments) (.interrupted way) after →
    Evaluates site memory (.expression (.dispatch callee arguments)) (.interrupted way) after
  | noOperand {site memory} : Evaluates site memory (.operands []) (.values []) memory
  | operand {site memory first later value between values after} :
    Evaluates site memory (.expression first) (.values [value]) between →
    Evaluates site between (.operands later) (.values values) after →
    Evaluates site memory (.operands (first :: later)) (.values (value :: values)) after
  | operandsInterrupted {site memory first later value between way after} :
    Evaluates site memory (.expression first) (.values [value]) between →
    Evaluates site between (.operands later) (.interrupted way) after →
    Evaluates site memory (.operands (first :: later)) (.interrupted way) after
  | noBinding {site memory contents outcome after} :
    Evaluates site memory (.expression (.block contents)) outcome after →
    Evaluates site memory (.bindings [] [] contents) outcome after
  | binding {site memory symbol symbols expression later contents value between store outcome after} :
    Evaluates site memory (.expression expression) (.values [value]) between →
    between.store.bind site.innermost symbol value = (.ok (), store) →
    Evaluates site (between.withStore store) (.bindings symbols later contents) outcome after →
    Evaluates site memory (.bindings (symbol :: symbols) (expression :: later) contents) outcome after
  | bindingRefused {site memory symbol symbols expression later contents value between cause store} :
    Evaluates site memory (.expression expression) (.values [value]) between →
    between.store.bind site.innermost symbol value = (.error cause, store) →
    Evaluates site memory (.bindings (symbol :: symbols) (expression :: later) contents)
      (.failure cause) (between.withStore store)
  | emptyRound {site memory} : Evaluates site memory (.round []) (.values []) memory
  | round {site memory first later value between outcome after} :
    Evaluates site memory (.expression first) (.values [value]) between →
    Evaluates site between (.round later) outcome after →
    Evaluates site memory (.round (first :: later)) outcome after
  | cycleEnds {site memory test step contents value after} :
    Evaluates site memory (.expression test) (.values [value]) after → value.isTruthy = false →
    Evaluates site memory (.cycle test step contents) (.values []) after
  | cycleRound {site memory test step contents value tested round rounded outcome after} :
    Evaluates site memory (.expression test) (.values [value]) tested → value.isTruthy = true →
    Evaluates site tested (.round contents) round rounded → round.endsRound = true →
    Evaluates site rounded (.steps test step contents) outcome after →
    Evaluates site memory (.cycle test step contents) outcome after
  | cycleLeft {site memory test step contents value tested after} :
    Evaluates site memory (.expression test) (.values [value]) tested → value.isTruthy = true →
    Evaluates site tested (.round contents) (.interrupted (.leaves .leaveLoop)) after →
    Evaluates site memory (.cycle test step contents) (.values []) after
  | cycleStops {site memory test step contents value tested stop after} :
    Evaluates site memory (.expression test) (.values [value]) tested → value.isTruthy = true →
    Evaluates site tested (.round contents) (.interrupted (.stops stop)) after →
    Evaluates site memory (.cycle test step contents) (.interrupted (.stops stop)) after
  | stepDone {site memory test step contents value stepped outcome after} :
    Evaluates site memory (.expression step) (.values [value]) stepped →
    Evaluates site stepped (.cycle test step contents) outcome after →
    Evaluates site memory (.steps test step contents) outcome after
  | stepAgain {site memory test step contents stepped outcome after} :
    Evaluates site memory (.expression step) (.interrupted (.leaves .nextRound)) stepped →
    Evaluates site stepped (.steps test step contents) outcome after →
    Evaluates site memory (.steps test step contents) outcome after
  | stepLeft {site memory test step contents after} :
    Evaluates site memory (.expression step) (.interrupted (.leaves .leaveLoop)) after →
    Evaluates site memory (.steps test step contents) (.values []) after
  | stepStops {site memory test step contents stop after} :
    Evaluates site memory (.expression step) (.interrupted (.stops stop)) after →
    Evaluates site memory (.steps test step contents) (.interrupted (.stops stop)) after
  | argCount {site memory function arguments key arity builder cause} :
    function.body = .native key arity builder →
    arity.check function.name arguments.length = .error cause →
    Evaluates site memory (.call function arguments) (.failure cause)
      (memory.observed site.config (.called function.name arguments) arguments)
  | native {site memory function arguments key arity builder value after} :
    function.body = .native key arity builder →
    arity.check function.name arguments.length = .ok () →
    Gives site (memory.observed site.config (.called function.name arguments) arguments)
      (callNative host perform function.name key arguments) value after →
    Evaluates site memory (.call function arguments) (.values [value])
      (after.observed site.config (.returned function.name value) [value])
  | nativeStops {site memory function arguments key arity builder stop after} :
    function.body = .native key arity builder →
    arity.check function.name arguments.length = .ok () →
    Halts site (memory.observed site.config (.called function.name arguments) arguments)
      (callNative host perform function.name key arguments) stop after →
    Evaluates site memory (.call function arguments) (.interrupted (.stops stop)) after
  | tooDeep {site memory function arguments parameters rest code captures} :
    function.body = .compiled parameters rest code captures →
    site.config.maxCallDepth ≤ site.depth →
    Evaluates site memory (.call function arguments)
      (.failure (.runtime (.callDepth site.config.maxCallDepth function.name)))
      (memory.observed site.config (.called function.name arguments) arguments)
  | refused {site memory function arguments parameters rest code captures observed cause store} :
    function.body = .compiled parameters rest code captures →
    site.depth < site.config.maxCallDepth →
    memory.observed site.config (.called function.name arguments) arguments = observed →
    observed.store.callScope function.name parameters rest arguments = (.error cause, store) →
    Evaluates site memory (.call function arguments) (.failure cause) (observed.withStore store)
  | returns {site memory function arguments parameters rest contents captures observed ref store
      value after} :
    function.body = .compiled parameters rest
      (Form.functionCode (Expression.block contents).form).toArray captures →
    site.depth < site.config.maxCallDepth →
    memory.observed site.config (.called function.name arguments) arguments = observed →
    observed.store.callScope function.name parameters rest arguments = (.ok ref, store) →
    Evaluates (site.called function ref) (observed.withStore store)
      (.expression (.block contents)) (.values [value]) after →
    Evaluates site memory (.call function arguments) (.values [value])
      (after.observed site.config (.returned function.name value) [value])
  | stops {site memory function arguments parameters rest contents captures observed ref store
      stop after} :
    function.body = .compiled parameters rest
      (Form.functionCode (Expression.block contents).form).toArray captures →
    site.depth < site.config.maxCallDepth →
    memory.observed site.config (.called function.name arguments) arguments = observed →
    observed.store.callScope function.name parameters rest arguments = (.ok ref, store) →
    Evaluates (site.called function ref) (observed.withStore store)
      (.expression (.block contents)) (.interrupted (.stops stop)) after →
    Evaluates site memory (.call function arguments) (.interrupted (.stops stop)) after

end Evaluation

end StackLisp
