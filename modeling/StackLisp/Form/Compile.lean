import StackLisp.Form

/-!
From forms to instructions. The code of a form has its jumps counted from its own start, and is
moved when it is placed behind other code. It leaves one value on the data stack and the scopes as
they were.

A way out of a loop first drops what was pushed for unfinished calls since the loop began, and
closes the scopes opened since; how much that is, is known where the form stands.
-/

namespace StackLisp

/-- The loop that is being compiled, by what stood around it. -/
structure LoopPlace where
  scopes : Nat
  pending : Nat
  deriving DecidableEq, Repr, Inhabited

structure Place where
  loop : Option LoopPlace
  scopes : Nat
  /-- values pushed for calls that are not complete yet -/
  pending : Nat
  deriving DecidableEq, Repr, Inhabited

namespace Place

def start : Place := ⟨none, 0, 0⟩

def inScope (place : Place) : Place := { place with scopes := place.scopes + 1 }

def behindOperand (place : Place) : Place := { place with pending := place.pending + 1 }

def inLoop (place : Place) : Place := { place with loop := some ⟨place.scopes, place.pending⟩ }

end Place

namespace Code

def concat : List Code → Code
  | [] => []
  | first :: later => first.followedBy (concat later)

def closeLoop (exit next : Nat) (code : Code) : Code :=
  code.map fun instr =>
    match instr with
    | .leave .leaveLoop => .jump exit
    | .leave .nextRound => .jump next
    | other => other

def choose (test whenTrue whenFalse : Code) : Code :=
  let otherwise := test.length + 1 + whenTrue.length + 1
  concat [test ++ [.branch false otherwise], whenTrue] ++
    .jump (otherwise + whenFalse.length) :: whenFalse.map (Instr.relocate otherwise)

def settle (stopsOn : Bool) (first second : Code) : Code :=
  concat [first ++ [.dup, .branch stopsOn (first.length + 3 + second.length), .pop], second]

/-- Tests, runs a round and starts over. The round holds what a way out must still close. -/
def loop (test round : Code) (next : Nat) : Code :=
  let exit := test.length + 1 + round.length + 1
  test ++ .branch false exit ::
    (closeLoop exit next (round.map (Instr.relocate (test.length + 1))) ++ [.jump 0])

/-- The value pushed behind the way out is never reached; it keeps the shape of a form's code. -/
def leave (place : Place) (exit : Exit) : Code :=
  let outer := place.loop.getD ⟨place.scopes, place.pending⟩
  List.replicate (place.pending - outer.pending) .pop ++
    (List.replicate (place.scopes - outer.scopes) .closeScope ++ [.leave exit, .push .nil])

end Code

namespace Form

mutual

def code (place : Place) : Form → Code
  | .constant value => [.push value]
  | .variable symbol => [.get symbol]
  | .call symbol arguments => operandCode place arguments ++ [.call symbol arguments.length]
  | .dispatch callee arguments =>
    (code place callee).followedBy (operandCode place.behindOperand arguments) ++
      [.dispatch arguments.length]
  | .sequence first later => (code place first).followedBy (laterCode place later)
  | .define symbol value => code place value ++ [.dup, .put symbol]
  | .assign symbol value => code place value ++ [.dup, .set symbol]
  | .choose test whenTrue whenFalse =>
    Code.choose (code place test) (code place whenTrue) (code place whenFalse)
  | .settle stopsOn first second => Code.settle stopsOn (code place first) (code place second)
  | .bind symbols values body =>
    Code.concat [[.openScope], bindingCode place.inScope symbols values, code place.inScope body] ++
      [.closeScope]
  | .whileLoop test body =>
    Code.loop (code place test) (roundCode place.inLoop body) 0 ++ [.push .nil]
  | .forLoop start test step body =>
    let test := code place.inScope test
    let round := roundCode place.inScope.inLoop body
    let step := code place.inScope.inLoop step ++ [.pop]
    let next := test.length + 1 + round.length
    Code.concat [.openScope :: [], code place.inScope start ++ [.pop],
      Code.loop test (round.followedBy step) next] ++ [.closeScope, .push .nil]
  | .leave exit => Code.leave place exit
  | .function ref => [.closure ref]

def operandCode (place : Place) : List Form → Code
  | [] => []
  | form :: later => (code place form).followedBy (operandCode place.behindOperand later)

def laterCode (place : Place) : List Form → Code
  | [] => []
  | form :: later => Code.concat [[.pop], code place form, laterCode place later]

def bindingCode (place : Place) : List Symbol → List Form → Code
  | symbol :: symbols, form :: later =>
    Code.followedBy (code place form ++ [.put symbol]) (bindingCode place symbols later)
  | _, _ => []

/-- Forms run for their effects alone. -/
def roundCode (place : Place) : List Form → Code
  | [] => []
  | form :: later => Code.followedBy (code place form ++ [.pop]) (roundCode place later)

end

/-- The code of a program: one form after the other, for the value of the last one, if any. -/
def programCode : List Form → Code
  | [] => []
  | first :: later => (first.code .start).followedBy (laterCode .start later)

def functionCode (body : Form) : Code := body.code .start ++ [.ret]

end Form

end StackLisp
