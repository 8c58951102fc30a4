import StackLisp.Interpreter
import StackLisp.Proofs.Machine.Keeping
import StackLisp.Proofs.Reader.Through
import StackLisp.Proofs.Store.Development

/-!
Computations that are made of what an interpreter offers: they look at the state, let the store
develop, fail and catch failures, ask for runs, work in interpreters apart, clear the stacks and use the
reader. Native functions and the reading of forms are of this sort, and so is all that a host does.
-/

namespace StackLisp

def World.reading (world : World) (reader : Option Reader) : World :=
  { world with env := { world.env with reader } }

namespace Machine

/-- Computations of this sort, by the runs that they may ask for: `writes` tells what they may define in
scopes that exist, and `hears` whether they use the reader. -/
inductive Acts (writes : Store.Writes) (hears : Prop) : {α : Type} → (Perform → Machine α) → Prop
  | result {α : Type} (value : α) : Acts writes hears fun _ => pure value
  | failure {α : Type} (cause : Error) : Acts writes hears fun _ => (fail cause : Machine α)
  | outOfFuel {α : Type} : Acts writes hears fun _ => (exhausted : Machine α)
  | look {α : Type} {read : World → α} :
    (∀ world reader, read (world.reading reader) = read world) →
    Acts writes hears fun _ => do return read (← get)
  | change {α : Type} {change : Store → α × Store} :
    (∀ store : Store, store.Develops writes (change store).2) →
    Acts writes hears fun _ => onStore change
  | note (change : Journal → Journal) : Acts writes hears fun _ => onJournal change
  | andThen {α β : Type} {body : Perform → Machine α} {later : Perform → α → Machine β} :
    Acts writes hears body → (∀ value, Acts writes hears fun perform => later perform value) →
    Acts writes hears fun perform => body perform >>= later perform
  | attempted {α : Type} {body : Perform → Machine α} :
    Acts writes hears body → Acts writes hears fun perform => attempt (body perform)
  | request (request : Request) : Acts writes hears fun perform => perform request
  | nested {α : Type} {body : Perform → Machine α} :
    Acts writes hears body → Acts writes hears fun perform => inNested (body perform)
  | apart {α : Type} {body : Perform → Machine α} :
    Acts writes hears body → Acts writes hears fun perform => inEnv .fresh (body perform)
  | copied {α : Type} {body : Perform → Machine α} : Acts writes hears body →
    Acts writes hears fun perform => (do inEnv (← currentEnv).copy (body perform) : Machine α)
  | cleared : Acts writes hears fun _ => Interpreter.clear
  | exchange {α : Type} {exchange : Reader → SymbolTable → α × Reader × SymbolTable} :
    hears → (∀ reader (symbols : SymbolTable), symbols.Grown (exchange reader symbols).2.2) →
    (∀ reader symbols, (exchange reader symbols).2.1.stopped = reader.stopped) →
    Acts writes hears fun _ => Interpreter.onReader exchange
  | stopped : hears → Acts writes hears fun _ => Interpreter.stopReader

section Acts

variable {writes : Store.Writes} {hears : Prop} {α β : Type}

theorem Acts.mono {others : Store.Writes} {listens : Prop}
    (allowed : ∀ store ref symbol value, writes store ref symbol value →
      others store ref symbol value)
    (heard : hears → listens) {body : Perform → Machine α} (acts : Acts writes hears body) :
    Acts others listens body := by
  induction acts with
  | result value => exact .result value
  | failure cause => exact .failure cause
  | outOfFuel => exact .outOfFuel
  | look blind => exact .look blind
  | change develops => exact .change fun store => (develops store).mono allowed
  | note change => exact .note change
  | andThen _ _ ihFirst ihLater => exact .andThen ihFirst ihLater
  | attempted _ ih => exact .attempted ih
  | request asked => exact .request asked
  | nested _ ih => exact .nested ih
  | apart _ ih => exact .apart ih
  | copied _ ih => exact .copied ih
  | cleared => exact .cleared
  | exchange hears grown running => exact .exchange (heard hears) grown running
  | stopped hears => exact .stopped (heard hears)

theorem Acts.heard {body : Perform → Machine α} (acts : Acts writes hears body) :
    Acts writes True body := acts.mono (fun _ _ _ _ written => written) fun _ => trivial

theorem acts_ofExcept (result : Except Error α) : Acts writes hears fun _ => ofExcept result := by
  cases result with
  | ok value => exact .result value
  | error cause => exact .failure cause

theorem acts_readStore (read : Store → α) : Acts writes hears fun _ => readStore read :=
  .look fun _ _ => rfl

theorem acts_currentConfig : Acts writes hears fun _ => currentConfig := .look fun _ _ => rfl

theorem acts_ask (question : Store → Except Error α) : Acts writes hears fun _ => ask question :=
  (acts_readStore question).andThen acts_ofExcept

theorem acts_tryOnStore {change : Store → Except Error α × Store}
    (develops : ∀ store : Store, store.Develops writes (change store).2) :
    Acts writes hears fun _ => tryOnStore change :=
  (Acts.change develops).andThen acts_ofExcept

theorem acts_log (level : Level) (message : Unit → String) :
    Acts writes hears fun _ => log level message := by
  refine acts_currentConfig.andThen fun config => ?_
  split
  · exact .note _
  · exact .result ()

theorem acts_newList (items : List Value) : Acts writes hears fun _ => newList items :=
  .change fun store => store.develops_newList items

theorem acts_newArray (items : List Value) : Acts writes hears fun _ => newArray items :=
  .change fun store => store.develops_newArray _

theorem acts_intern (name : String) : Acts writes hears fun _ => intern name :=
  .change fun store => store.develops_intern name

end Acts

end Machine

open Machine

/-! What an interpreter offers acts, and so does all that is made of it. -/

namespace Interpreter

variable {writes : Store.Writes} {hears : Prop}

theorem acts_addNative (name : String) (key : NativeKey) (arity : Arity) (builder : Bool) :
    Acts writes hears fun _ => addNative name key arity builder :=
  .change fun _ => (Store.Change.registered _).develops

theorem acts_bindGlobal {name : String} {value : Value}
    (allowed : ∀ store symbol, writes store Store.global symbol value) :
    Acts writes hears fun _ => bindGlobal name value :=
  (acts_intern name).andThen fun symbol =>
    acts_tryOnStore fun store => store.develops_bind (allowed store symbol)

theorem acts_freshSymbol (stem : String) : Acts writes hears fun _ => freshSymbol stem :=
  .change fun store => store.develops_freshSymbol stem

theorem acts_lookup (name : String) : Acts writes hears fun _ => lookup name := by
  refine (acts_intern name).andThen fun symbol => ?_
  let place (world : World) := (world.env.scopes.elements, world.env.function.captures)
  let search (place : List ScopeRef × List Capture) : Machine Value :=
    tryOnStore fun store => store.lookup place.1 place.2 symbol
  have searched (place : List ScopeRef × List Capture) : Acts writes hears fun _ => search place :=
    acts_tryOnStore fun store => store.develops_lookup _ _ symbol
  have placed : Acts writes hears fun _ => (do return place (← get) : Machine _) :=
    .look fun _ _ => rfl
  exact placed.andThen searched

theorem acts_expand (expander : FunctionRef) (arguments : List Value) :
    Acts writes hears fun perform => expandWith perform expander arguments :=
  .nested (.request _)

theorem acts_valuesOf (told : List Datum × Option Error) : Acts writes hears fun _ => valuesOf told := by
  unfold valuesOf
  split
  · exact .change fun store => store.develops_loadAll _
  · exact .failure _

section Reading

variable (heard : hears)

include heard

theorem acts_readText (text : String) : Acts writes hears fun _ => readText text := by
  refine .andThen (.exchange heard (fun reader symbols => reader.restart_grown symbols _) ?_)
    acts_valuesOf
  exact fun reader symbols => (Reader.collect_stopped _).trans (reader.restart_stopped symbols _)

theorem acts_readLine (line : String) : Acts writes hears fun _ => readLine line := by
  refine .andThen (.exchange heard (fun reader symbols => reader.feed_grown symbols _) ?_)
    acts_valuesOf
  exact fun reader symbols => (Reader.collect_stopped _).trans (reader.feed_stopped symbols _)

theorem acts_evalText (text : String) :
    Acts writes hears fun perform => (do perform (.evaluate (← readText text)) : Machine Value) :=
  (acts_readText heard text).andThen fun values => .request (.evaluate values)

end Reading

end Interpreter

end StackLisp
