import StackLisp.Native.Standard
import StackLisp.Proofs.Machine.Tame

/-!
The standard functions are tame: they ask for runs by way of `perform` alone, and fail without a
fault.
-/

namespace StackLisp

open Machine

namespace Native

theorem tame_wrongArgument {α : Type} (native what : String) (value : Value) :
    IsTame fun _ => (wrongArgument native what value : Machine α) :=
  tame_bind (tame_readStore _) fun _ => .failure rfl

theorem tame_contents (ref : ArrayRef) : IsTame fun _ => contents ref := tame_readStore _

theorem tame_position (native : String) (index : Value) (length : Nat) :
    IsTame fun _ => position native index length := by
  unfold position
  split
  · split
    · exact tame_pure _
    · exact .failure rfl
  · exact tame_wrongArgument native _ _

theorem tame_first (native : String) (sequence : Value) :
    IsTame fun _ => first native sequence := by
  unfold first
  split
  · exact tame_pure _
  · refine tame_bind (tame_contents _) fun items => ?_
    split
    · exact tame_pure _
    · exact .failure rfl
  · exact .failure rfl
  · exact tame_wrongArgument native _ _

theorem tame_rest (native : String) (sequence : Value) :
    IsTame fun _ => rest native sequence := by
  unfold rest
  split
  · exact tame_pure _
  · exact tame_pure _
  · exact tame_bind (tame_contents _) fun _ => tame_newArray _
  · exact tame_wrongArgument native _ _

theorem tame_length (native : String) (sequence : Value) :
    IsTame fun _ => length native sequence := by
  unfold length
  dsimp only
  split
  · exact tame_bind (tame_pure _) fun _ => tame_pure _
  · exact tame_bind (tame_readStore _) fun _ => tame_pure _
  · refine tame_bind (tame_readStore _) fun items => ?_
    split
    · exact tame_bind (tame_pure _) fun _ => tame_pure _
    · exact tame_bind (tame_wrongArgument native _ _) fun _ => tame_pure _

theorem tame_append (native : String) (sequence : Value) (items : List Value) :
    IsTame fun _ => append native sequence items := by
  unfold append
  split
  · exact tame_bind (tame_contents _) fun _ => tame_newArray _
  · exact tame_bind (tame_ask fun store => store.listItems_harmless _) fun _ => tame_newList _
  · exact tame_bind (tame_ask fun store => store.listItems_harmless _) fun _ => tame_newList _
  · exact tame_wrongArgument native _ _

theorem tame_allItems (sequences : List Value) : IsTame fun _ => allItems sequences := by
  induction sequences with
  | nil => exact tame_pure _
  | cons sequence later ih =>
      exact tame_bind (tame_ask fun store => store.sequenceItems_harmless _) fun _ =>
        tame_bind ih fun _ => tame_pure _

theorem tame_allText (native : String) (values : List Value) :
    IsTame fun _ => allText native values := by
  fun_induction allText with
  | case1 => exact tame_pure _
  | case2 _ _ ih => exact tame_bind ih fun _ => tame_pure _
  | case3 => exact tame_wrongArgument native _ _

theorem tame_concat (native : String) (arguments : List Value) :
    IsTame fun _ => concat native arguments := by
  unfold concat
  split
  · exact tame_bind (tame_allItems _) fun _ => tame_newList _
  · exact tame_bind (tame_allItems _) fun _ => tame_newList _
  · exact tame_bind (tame_allItems _) fun _ => tame_newList _
  · exact tame_bind (tame_allItems _) fun _ => tame_newArray _
  · exact tame_bind (tame_allText native _) fun _ => tame_pure _
  · exact tame_wrongArgument native _ _

theorem tame_arrayGet (native : String) (array index : Value) :
    IsTame fun _ => arrayGet native array index := by
  unfold arrayGet
  split
  · exact tame_bind (tame_readStore _) fun _ => tame_bind (tame_position native _ _) fun _ =>
      tame_pure _
  · exact tame_wrongArgument native _ _

theorem tame_arraySet (native : String) (array index value : Value) :
    IsTame fun _ => arraySet native array index value := by
  unfold arraySet
  split
  · exact tame_bind (tame_readStore _) fun _ => tame_bind (tame_position native _ _) fun _ =>
      tame_onStore fun store => store.setItem_keeps _ _ _
  · exact tame_wrongArgument native _ _

theorem tame_isEmpty (value : Value) : IsTame fun _ => isEmpty value := by
  unfold isEmpty
  split
  · exact tame_pure _
  · exact tame_pure _
  · exact tame_readStore _
  · exact tame_readStore _
  · exact tame_pure _

theorem tame_newRecord (native : String) (arguments : List Value) :
    IsTame fun _ => newRecord native arguments := by
  have filled (typeName : String) (fields : List Value) : IsTame fun _ => (do
      let fields ← ask fun store => fillFields store .empty fields
      onStore fun store => store.newRecord ⟨typeName, fields⟩) :=
    tame_bind (tame_ask fun store => store.fillFields_harmless _ _) fun _ =>
      tame_onStore fun store => store.newRecord_keeps _
  have checked (typeName : String) (fields : List Value) : IsTame fun _ => (do
      if fields.length % 2 ≠ 0 then fail (.runtime (.unpairedKeys native))
      let fields ← ask fun store => fillFields store .empty fields
      onStore fun store => store.newRecord ⟨typeName, fields⟩) := by
    split
    · exact tame_bind (.failure rfl) fun _ => filled typeName fields
    · exact filled typeName fields
  exact checked _ _

theorem tame_recordRef (native : String) (value : Value) :
    IsTame fun _ => recordRef native value := by
  unfold recordRef
  split
  · exact tame_pure _
  · exact tame_wrongArgument native _ _

theorem tame_getField (native : String) (record key : Value) (default : Option Value) :
    IsTame fun _ => getField native record key default := by
  refine tame_bind (tame_recordRef native record) fun ref => ?_
  refine tame_bind (tame_ask fun store => store.getField_harmless ref key) fun found => ?_
  split
  · exact tame_pure _
  · split
    · exact tame_pure _
    · exact tame_bind (tame_readStore _) fun _ => .failure rfl

theorem tame_setField (native : String) (record key value : Value) :
    IsTame fun _ => setField native record key value :=
  tame_bind (tame_recordRef native record) fun ref =>
    tame_bind (tame_tryOnStore (fun store => store.setField_harmless ref key value)
      fun store => store.setField_keeps ref key value) fun _ => tame_pure _

theorem tame_deleteField (native : String) (record key : Value) :
    IsTame fun _ => deleteField native record key :=
  tame_bind (tame_recordRef native record) fun ref =>
    tame_bind (tame_tryOnStore (fun store => store.deleteField_harmless ref key)
      fun store => store.deleteField_keeps ref key) fun _ => tame_pure _

theorem tame_keys (native : String) (record : Value) : IsTame fun _ => keys native record :=
  tame_bind (tame_recordRef native record) fun _ =>
    tame_bind (tame_readStore _) fun _ => tame_newArray _

theorem tame_deref (native : String) (value : Value) : IsTame fun _ => deref native value := by
  unfold deref
  split
  · exact tame_readStore _
  · exact tame_wrongArgument native _ _

theorem tame_mapItems (function : Value) (items : List Value) :
    IsTame fun perform => mapItems perform function items := by
  induction items with
  | nil => exact tame_pure _
  | cons item later ih =>
      exact tame_bind .apply fun _ => tame_bind ih fun _ => tame_pure _

theorem tame_map (function sequence : Value) :
    IsTame fun perform => map perform function sequence := by
  refine tame_bind (tame_ask fun store => store.sequenceItems_harmless sequence) fun items => ?_
  refine tame_bind (tame_mapItems function items) fun results => ?_
  split
  · exact tame_newArray _
  · exact tame_newList _

theorem tame_expand (form : Value) : IsTame fun perform => expand perform form := by
  unfold expand
  split
  · refine tame_bind (tame_readStore _) fun expander => ?_
    split
    · exact .applyApart
    · exact tame_pure _
  · exact tame_pure _

theorem tame_freshSymbol (stem : Value) : IsTame fun _ => freshSymbol stem := by
  unfold freshSymbol
  split
  · exact tame_bind (tame_pure _) fun _ =>
      tame_bind (tame_onStore fun store => store.freshSymbol_keeps _) fun _ => tame_pure _
  · exact tame_bind (tame_readStore _) fun _ =>
      tame_bind (tame_onStore fun store => store.freshSymbol_keeps _) fun _ => tame_pure _

theorem tame_symbolNumber (native : String) (value : Value) :
    IsTame fun _ => symbolNumber native value := by
  unfold symbolNumber
  split
  · exact tame_pure _
  · exact tame_wrongArgument native _ _

theorem tame_joined (separator : String) (values : List Value) :
    IsTame fun _ => joined separator values := tame_readStore _

theorem tame_print (text : String) : IsTame fun _ => print text := .note fun _ => rfl

end Native

open Native

theorem Standard.tame_call (native : Standard) (arguments : List Value) :
    IsTame fun perform => native.call perform arguments := by
  have calculated (op : NumberOp) (neutral : Value) : IsTame fun _ => ask fun store =>
      calculateAll store native.name op neutral arguments :=
    tame_ask fun store => calculateAll_harmless store _ op neutral arguments
  have compared (holds : Ordering → Bool) (left right : Value) : IsTame fun _ => ask fun store =>
      compareBy store native.name holds left right :=
    tame_ask fun store => compareBy_harmless store _ holds left right
  unfold call
  dsimp only
  cases native with
  | sub =>
      dsimp only
      split
      · exact tame_ask fun store => calculate_harmless store _ _ _ _
      · exact calculated _ _
  | add => exact calculated _ _
  | mul => exact calculated _ _
  | div => exact calculated _ _
  | rem => exact tame_ask fun store => calculate_harmless store _ _ _ _
  | pow => exact tame_ask fun store => power_harmless store _ _ _
  | equal => exact tame_readStore _
  | notEqual => exact tame_readStore _
  | less => exact compared _ _ _
  | lessEqual => exact compared _ _ _
  | greater => exact compared _ _ _
  | greaterEqual => exact compared _ _ _
  | not => exact tame_pure _
  | list => exact tame_newList _
  | cons => exact tame_onStore fun store => store.newPair_keeps _ _
  | first => exact tame_first _ _
  | rest => exact tame_rest _ _
  | length => exact tame_length _ _
  | append => exact tame_append _ _ _
  | concat => exact tame_concat _ _
  | array => exact tame_newArray _
  | arrayGet => exact tame_arrayGet _ _ _
  | arraySet => exact tame_arraySet _ _ _ _
  | record => exact tame_newRecord _ _
  | recordGet => exact tame_getField _ _ _ _
  | recordSet => exact tame_setField _ _ _ _
  | recordDelete => exact tame_deleteField _ _ _
  | keys => exact tame_keys _ _
  | pointer => exact tame_onStore fun store => store.newPointer_keeps _
  | deref => exact tame_deref _ _
  | text => exact tame_bind (tame_joined _ _) fun _ => tame_pure _
  | print => exact tame_bind (tame_joined _ _) fun _ => tame_bind (tame_print _) fun _ => tame_pure _
  | printLine =>
      exact tame_bind (tame_joined _ _) fun _ => tame_bind (tame_print _) fun _ => tame_pure _
  | kindName => exact tame_readStore _
  | symbolNumber => exact tame_symbolNumber _ _
  | freshSymbol => exact tame_freshSymbol _
  | apply => exact tame_bind (tame_ask fun store => store.sequenceItems_harmless _) fun _ => .apply
  | map => exact tame_map _ _
  | isEmpty => exact tame_bind (tame_isEmpty _) fun _ => tame_pure _
  | eval => exact .evaluateApart
  | raise => exact tame_bind (tame_joined _ _) fun _ => .failure rfl
  | expand => exact tame_expand _
  | _ => exact tame_pure _

end StackLisp
