import StackLisp.Text.Cluster

/-!
A line as it is typed. A backspace takes back the cluster typed before it, if there is one; it
does not reach into an earlier line.
-/

namespace StackLisp

structure Typing where
  /-- the characters that stand, the last one first -/
  text : List Char
  /-- the size of each cluster that stands, in bytes, the last one first -/
  sizes : List UInt8
  last : ClusterEnd
  deriving Repr, Inhabited

namespace Typing

def empty : Typing := ⟨[], [], .closed⟩

def backspace : Char := '\x08'

def dropBytes (size : Nat) : List Char → List Char
  | [] => []
  | c :: rest => if c.utf8Size ≤ size then dropBytes (size - c.utf8Size) rest else c :: rest

/-- Takes the last cluster back. What comes next begins a cluster. -/
def erase (typing : Typing) : Typing :=
  match typing.sizes with
  | [] => { typing with last := .closed }
  | size :: sizes => ⟨dropBytes size.toNat typing.text, sizes, .closed⟩

/-- The sizes after a character that joins the last cluster. A size is one byte, and wraps. -/
def grow (size : UInt8) : List UInt8 → List UInt8
  | [] => [size]
  | last :: earlier => (last + size) :: earlier

def enter (typing : Typing) (c : Char) : Typing :=
  let next := ClusterClass.ofChar c
  if c = backspace then typing.erase
  else if typing.last.joins next then
    ⟨c :: typing.text, grow (.ofNat c.utf8Size) typing.sizes, typing.last.extend next⟩
  else ⟨c :: typing.text, .ofNat c.utf8Size :: typing.sizes, .single next⟩

end Typing

def typedLine (characters : List Char) : String :=
  String.ofList (characters.foldl Typing.enter .empty).text.reverse

end StackLisp
