import StackLisp.Store.Container

/-!
Equality of values by structure. Functions, pointers and reflections are equal to themselves only.

Two arrays or records that are already being compared on the way down are taken as equal when they
meet again, so values that contain themselves are equal when no difference can be found by going
down both of them in step.
-/

namespace StackLisp.Store

abbrev Meetings := List (Container × Container)

/-- Compares values, leaving the contents of containers to `inside`. -/
def equalWith (inside : Container → Container → Bool) : Value → Value → Bool
  | .pair mark head tail, other =>
    match other with
    | .pair mark' head' tail' =>
      mark == mark' || (equalWith inside head head' && equalWith inside tail tail')
    | _ => false
  | .array ref, .array ref' => inside (.array ref) (.array ref')
  | .record ref, .record ref' => inside (.record ref) (.record ref')
  | .nil, .nil => true
  | .endMark, .endMark => true
  | .int n, .int n' => n == n'
  | .uint n, .uint n' => n == n'
  | .float x, .float x' => x.equal x'
  | .char c, .char c' => c == c'
  | .bool b, .bool b' => b == b'
  | .text s, .text s' => s == s'
  | .symbol s, .symbol s' => s.same s'
  | .function ref, .function ref' => ref == ref'
  | .pointer ref, .pointer ref' => ref == ref'
  | .reflect mark, .reflect mark' => mark == mark'
  | _, _ => false

def allEqual (equal : Value → Value → Bool) : List Value → List Value → Bool
  | [], [] => true
  | value :: later, value' :: later' => equal value value' && allEqual equal later later'
  | _, _ => false

def fieldsEqual (equal : Value → Value → Bool) :
    List (Key × Value) → List (Key × Value) → Bool
  | [], [] => true
  | (key, value) :: later, (key', value') :: later' =>
    key == key' && equal value value' && fieldsEqual equal later later'
  | _, _ => false

def contentsEqual (store : Store) (equal : Value → Value → Bool) : Container → Container → Bool
  | .array ref, .array ref' =>
    (store.array ref).size == (store.array ref').size &&
      allEqual equal (store.array ref).toList (store.array ref').toList
  | .record ref, .record ref' =>
    let left := store.record ref
    let right := store.record ref'
    left.typeName == right.typeName && left.fields.pairs.length == right.fields.pairs.length &&
      fieldsEqual equal left.fields.pairs right.fields.pairs
  | _, _ => false

/-- Equality that may go down `fuel` pairs of containers. -/
def equalAt (store : Store) : Nat → Meetings → Value → Value → Bool
  | 0, _, _, _ => false
  | fuel + 1, met, value, value' =>
    equalWith (fun left right =>
      left == right || met.contains (left, right) ||
        store.contentsEqual (store.equalAt fuel ((left, right) :: met)) left right) value value'

/-- A way down meets no pair of containers twice, so there are fuel units for every pair. -/
def equal (store : Store) (left right : Value) : Bool :=
  store.equalAt (store.depthBound * store.depthBound + 1) [] left right

end StackLisp.Store
