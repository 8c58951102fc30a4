import StackLisp.Store.Print

/-!
How instructions are written in listings.
-/

namespace StackLisp.Instr

def text (store : Store) : Instr → String
  | .push value => s!"push {store.text value}"
  | .pop => "pop"
  | .dup => "dup"
  | .get symbol => s!"get {symbol.name}"
  | .put symbol => s!"put {symbol.name}"
  | .set symbol => s!"set {symbol.name}"
  | .call symbol count => s!"call {symbol.name} {decimalText count}"
  | .dispatch count => s!"dispatch {decimalText count}"
  | .jump target => s!"jump {decimalText target}"
  | .branch direction target => s!"branch {boolWord direction} {decimalText target}"
  | .ret => "return"
  | .closure function => s!"closure {(store.function function).name}"
  | .openScope => "add-scope"
  | .closeScope => "remove-scope"
  | .leave exit => exit.name

end StackLisp.Instr
