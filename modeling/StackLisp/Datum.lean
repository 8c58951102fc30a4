import StackLisp.Symbol
import StackLisp.Number.Shortest
import StackLisp.Text.CharName
import StackLisp.Text.Quoted

/-!
Data as they are read: trees of atoms, pairs and arrays, without identity. The text of a datum is
what is written for it.
-/

namespace StackLisp

inductive Datum where
  | nil
  | int (n : Int64)
  | uint (n : UInt64)
  | float (x : Binary64)
  | char (c : Char)
  | bool (b : Bool)
  | text (s : String)
  | symbol (s : Symbol)
  | pair (head tail : Datum)
  | array (items : List Datum)
  deriving Repr, Inhabited

namespace Datum

def listWithTail (items : List Datum) (tail : Datum) : Datum := items.foldr pair tail

def list (items : List Datum) : Datum := listWithTail items .nil

/-- The elements along the tails of a datum, and what ends them. -/
def spine : Datum → List Datum × Datum
  | .pair head tail =>
    let (items, last) := tail.spine
    (head :: items, last)
  | last => ([], last)

end Datum

end StackLisp
