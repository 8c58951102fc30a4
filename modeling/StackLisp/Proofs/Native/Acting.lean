import StackLisp.Proofs.Machine.Acting
import StackLisp.Proofs.Native.Tame

/-!
The standard functions act: what they do to the store besides making new objects is to set the items of
arrays and the fields of records, and none of them binds a symbol or uses the reader.
-/

namespace StackLisp

open Machine

variable {writes : Store.Writes} {hears : Prop}

namespace Native

theorem acts_wrongArgument {α : Type} (native what : String) (value : Value) :
    Acts writes hears fun _ => (wrongArgument native what value : Machine α) :=
  (acts_readStore _).andThen fun _ => .failure _

theorem acts_contents (ref : ArrayRef) : Acts writes hears fun _ => contents ref := acts_readStore _

theorem acts_position (native : String) (index : Value) (length : Nat) :
    Acts writes hears fun _ => position native index length := by
  unfold position
  split
  · split
    · exact .result _
    · exact .failure _
  · exact acts_wrongArgument native _ _

theorem acts_first (native : String) (sequence : Value) :
    Acts writes hears fun _ => first native sequence := by
  unfold first
  split
  · exact .result _
  · refine (acts_contents _).andThen fun items => ?_
    split
    · exact .result _
    · exact .failure _
  · exact .failure _
  · exact acts_wrongArgument native _ _

theorem acts_rest (native : String) (sequence : Value) :
    Acts writes hears fun _ => rest native sequence := by
  unfold rest
  split
  · exact .result _
  · exact .result _
  · exact (acts_contents _).andThen fun _ => acts_newArray _
  · exact acts_wrongArgument native _ _

theorem acts_length (native : String) (sequence : Value) :
    Acts writes hears fun _ => length native sequence := by
  unfold length
  dsimp only
  split
  · exact (Acts.result _).andThen fun _ => .result _
  · exact (acts_readStore _).andThen fun _ => .result _
  · refine (acts_readStore _).andThen fun items => ?_
    split
    · exact (Acts.result _).andThen fun _ => .result _
    · exact (acts_wrongArgument native _ _).andThen fun _ => .result _

theorem acts_append (native : String) (sequence : Value) (items : List Value) :
    Acts writes hears fun _ => append native sequence items := by
  unfold append
  split
  · exact (acts_contents _).andThen fun _ => acts_newArray _
  · exact (acts_ask _).andThen fun _ => acts_newList _
  · exact (acts_ask _).andThen fun _ => acts_newList _
  · exact acts_wrongArgument native _ _

theorem acts_allItems (sequences : List Value) : Acts writes hears fun _ => allItems sequences := by
  induction sequences with
  | nil => exact .result _
  | cons sequence later ih =>
      exact (acts_ask _).andThen fun _ => ih.andThen fun _ => .result _

theorem acts_allText (native : String) (values : List Value) :
    Acts writes hears fun _ => allText native values := by
  fun_induction allText with
  | case1 => exact .result _
  | case2 _ _ ih => exact ih.andThen fun _ => .result _
  | case3 => exact acts_wrongArgument native _ _

theorem acts_concat (native : String) (arguments : List Value) :
    Acts writes hears fun _ => concat native arguments := by
  have listed : Acts writes hears fun _ => (do newList (← allItems arguments) : Machine Value) :=
    (acts_allItems _).andThen fun _ => acts_newList _
  unfold concat
  split
  · exact listed
  · exact listed
  · exact listed
  · exact (acts_allItems _).andThen fun _ => acts_newArray _
  · exact (acts_allText native _).andThen fun _ => .result _
  · exact acts_wrongArgument native _ _

theorem acts_arrayGet (native : String) (array index : Value) :
    Acts writes hears fun _ => arrayGet native array index := by
  unfold arrayGet
  split
  · exact (acts_readStore _).andThen fun _ =>
      (acts_position native _ _).andThen fun _ => .result _
  · exact acts_wrongArgument native _ _

theorem acts_arraySet (native : String) (array index value : Value) :
    Acts writes hears fun _ => arraySet native array index value := by
  unfold arraySet
  split
  · exact (acts_readStore _).andThen fun _ => (acts_position native _ _).andThen fun _ =>
      .change fun store => store.develops_setItem _ _ _
  · exact acts_wrongArgument native _ _

theorem acts_isEmpty (value : Value) : Acts writes hears fun _ => isEmpty value := by
  unfold isEmpty
  split
  · exact .result _
  · exact .result _
  · exact acts_readStore _
  · exact acts_readStore _
  · exact .result _

theorem acts_newRecord (native : String) (arguments : List Value) :
    Acts writes hears fun _ => newRecord native arguments := by
  have filled (typeName : String) (fields : List Value) : Acts writes hears fun _ => (do
      let fields ← ask fun store => fillFields store .empty fields
      onStore fun store => store.newRecord ⟨typeName, fields⟩ : Machine Value) :=
    (acts_ask _).andThen fun _ => .change fun store => store.develops_newRecord _
  have checked (typeName : String) (fields : List Value) : Acts writes hears fun _ => (do
      if fields.length % 2 ≠ 0 then fail (.runtime (.unpairedKeys native))
      let fields ← ask fun store => fillFields store .empty fields
      onStore fun store => store.newRecord ⟨typeName, fields⟩ : Machine Value) := by
    split
    · exact (Acts.failure _).andThen fun _ => filled typeName fields
    · exact filled typeName fields
  exact checked _ _

theorem acts_recordRef (native : String) (value : Value) :
    Acts writes hears fun _ => recordRef native value := by
  unfold recordRef
  split
  · exact .result _
  · exact acts_wrongArgument native _ _

theorem acts_getField (native : String) (record key : Value) (default : Option Value) :
    Acts writes hears fun _ => getField native record key default := by
  refine (acts_recordRef native record).andThen fun ref => (acts_ask _).andThen fun found => ?_
  split
  · exact .result _
  · split
    · exact .result _
    · exact (acts_readStore _).andThen fun _ => .failure _

theorem acts_setField (native : String) (record key value : Value) :
    Acts writes hears fun _ => setField native record key value :=
  (acts_recordRef native record).andThen fun ref =>
    (acts_tryOnStore fun store => store.develops_setField ref key value).andThen fun _ => .result _

theorem acts_deleteField (native : String) (record key : Value) :
    Acts writes hears fun _ => deleteField native record key :=
  (acts_recordRef native record).andThen fun ref =>
    (acts_tryOnStore fun store => store.develops_deleteField ref key).andThen fun _ => .result _

theorem acts_keys (native : String) (record : Value) :
    Acts writes hears fun _ => keys native record :=
  (acts_recordRef native record).andThen fun _ =>
    (acts_readStore _).andThen fun _ => acts_newArray _

theorem acts_deref (native : String) (value : Value) :
    Acts writes hears fun _ => deref native value := by
  unfold deref
  split
  · exact acts_readStore _
  · exact acts_wrongArgument native _ _

theorem acts_mapItems (function : Value) (items : List Value) :
    Acts writes hears fun perform => mapItems perform function items := by
  induction items with
  | nil => exact .result _
  | cons item later ih => exact (Acts.request _).andThen fun _ => ih.andThen fun _ => .result _

theorem acts_map (function sequence : Value) :
    Acts writes hears fun perform => map perform function sequence := by
  refine (acts_ask _).andThen fun items => (acts_mapItems function items).andThen fun results => ?_
  split
  · exact acts_newArray _
  · exact acts_newList _

theorem acts_expand (form : Value) : Acts writes hears fun perform => expand perform form := by
  unfold expand
  split
  · refine (acts_readStore _).andThen fun expander => ?_
    split
    · exact .nested (.request _)
    · exact .result _
  · exact .result _

theorem acts_freshSymbol (stem : Value) : Acts writes hears fun _ => freshSymbol stem := by
  have made (stem : String) : Acts writes hears fun _ =>
      (do return .symbol (← onStore fun store => store.freshSymbol stem) : Machine Value) :=
    (Acts.change fun store => store.develops_freshSymbol stem).andThen fun _ => .result _
  unfold freshSymbol
  split
  · exact (Acts.result _).andThen made
  · exact (acts_readStore _).andThen made

theorem acts_symbolNumber (native : String) (value : Value) :
    Acts writes hears fun _ => symbolNumber native value := by
  unfold symbolNumber
  split
  · exact .result _
  · exact acts_wrongArgument native _ _

theorem acts_joined (separator : String) (values : List Value) :
    Acts writes hears fun _ => joined separator values := acts_readStore _

end Native

open Native

theorem Standard.acts_call (native : Standard) (arguments : List Value) :
    Acts writes hears fun perform => native.call perform arguments := by
  unfold call
  dsimp only
  cases native with
  | sub =>
      dsimp only
      split
      · exact acts_ask _
      · exact acts_ask _
  | add | mul | div | rem | pow | less | lessEqual | greater | greaterEqual => exact acts_ask _
  | equal | notEqual | kindName => exact acts_readStore _
  | list => exact acts_newList _
  | cons => exact .change fun store => store.develops_newPair _ _
  | first => exact acts_first _ _
  | rest => exact acts_rest _ _
  | length => exact acts_length _ _
  | append => exact acts_append _ _ _
  | concat => exact acts_concat _ _
  | array => exact acts_newArray _
  | arrayGet => exact acts_arrayGet _ _ _
  | arraySet => exact acts_arraySet _ _ _ _
  | record => exact acts_newRecord _ _
  | recordGet => exact acts_getField _ _ _ _
  | recordSet => exact acts_setField _ _ _ _
  | recordDelete => exact acts_deleteField _ _ _
  | keys => exact acts_keys _ _
  | pointer => exact .change fun store => store.develops_newPointer _
  | deref => exact acts_deref _ _
  | text => exact (acts_joined _ _).andThen fun _ => .result _
  | print | printLine =>
      exact (acts_joined _ _).andThen fun _ => (Acts.note _).andThen fun _ => .result _
  | symbolNumber => exact acts_symbolNumber _ _
  | freshSymbol => exact acts_freshSymbol _
  | apply => exact (acts_ask _).andThen fun _ => .request _
  | map => exact acts_map _ _
  | isEmpty => exact (acts_isEmpty _).andThen fun _ => .result _
  | eval => exact .nested (.request _)
  | raise => exact (acts_joined _ _).andThen fun _ => .failure _
  | expand => exact Native.acts_expand _
  | _ => exact .result _

end StackLisp
