import Std.Data.HashMap

/-!
Maps that keep their keys in the order in which they came. Every key stands in a row, and once more
with its value in the bucket of its hash code; a key that is set again keeps its place, and its
first spelling.
-/

namespace StackLisp

structure OrderedMap (K V : Type) where
  order : Array K
  buckets : Std.HashMap UInt64 (List (K × V))

namespace OrderedMap

variable {K V : Type}

def empty : OrderedMap K V := ⟨#[], ∅⟩

def bucket (map : OrderedMap K V) (code : UInt64) : List (K × V) := map.buckets.getD code []

def keys (map : OrderedMap K V) : List K := map.order.toList

def size (map : OrderedMap K V) : Nat := map.order.size

def isEmpty (map : OrderedMap K V) : Bool := map.order.isEmpty

/-- Gives the first entry of a key a new value, or adds one behind the others. -/
def place (same : K → K → Bool) (key : K) (value : V) : List (K × V) → List (K × V)
  | [] => [(key, value)]
  | (first, held) :: later =>
    if same first key then (first, value) :: later
    else (first, held) :: place same key value later

variable [BEq K] [Hashable K]

def get? (map : OrderedMap K V) (key : K) : Option V :=
  ((map.bucket (hash key)).find? fun entry => entry.1 == key).map Prod.snd

def contains (map : OrderedMap K V) (key : K) : Bool :=
  (map.bucket (hash key)).any fun entry => entry.1 == key

def set (map : OrderedMap K V) (key : K) (value : V) : OrderedMap K V :=
  let placed := place (· == ·) key value (map.bucket (hash key))
  { order := if map.contains key then map.order else map.order.push key
    buckets := map.buckets.insert (hash key) placed }

def erase (map : OrderedMap K V) (key : K) : OrderedMap K V :=
  if map.contains key then
    let kept := (map.bucket (hash key)).filter fun entry => !(entry.1 == key)
    { order := map.order.filter fun other => !(other == key)
      buckets := map.buckets.insert (hash key) kept }
  else map

def pairs (map : OrderedMap K V) : List (K × V) :=
  map.keys.filterMap fun key => (map.get? key).map fun value => (key, value)

end OrderedMap

end StackLisp
