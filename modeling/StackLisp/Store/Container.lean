import StackLisp.Store

/-!
Things that may contain themselves. Walks over values keep the containers that they are inside of,
and enter no container twice on one way down. Each way down enters at most as many containers as
the store has, which bounds the walks.
-/

namespace StackLisp

inductive Container where
  | array (ref : ArrayRef)
  | record (ref : RecordRef)
  | pointer (ref : PointerRef)
  deriving DecidableEq, Repr

namespace Store

def depthBound (store : Store) : Nat :=
  store.arrays.size + store.records.size + store.pointers.size

end Store

end StackLisp
