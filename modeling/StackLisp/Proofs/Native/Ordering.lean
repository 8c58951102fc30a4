import StackLisp.Proofs.Meaning.Calling

/-!
Comparisons of two values. Order and equality are decided by different rules: order takes any two
numbers for floats unless they are integers of one kind, and equality does so only beside a float, and
never for unsigned integers. So the comparisons agree with one another, but for an unsigned integer
beside a number of another kind that is the same as a float.
-/

namespace StackLisp

def Standard.Says (native : Standard) (perform : Perform) (world : World) (left right : Value)
    (answer : Bool) : Prop :=
  native.call perform [left, right] world = .ok (.bool answer) world

/-- An unsigned integer and a number of another kind, the same as floats. -/
def Value.unsignedTwins (left right : Value) : Bool :=
  match left, right with
  | .uint _, .uint _ => false
  | .uint _, _ | _, .uint _ =>
    match left.toFloat?, right.toFloat? with
    | some a, some b => a.equal b
    | _, _ => false
  | _, _ => false

section Order

variable {store : Store} {native : String} {left right : Value} {ordering : Ordering}

theorem beq_of_key {α β : Type} [BEq α] [LawfulBEq α] [Ord β] [Std.LawfulEqOrd β] (key : α → β)
    (injective : ∀ {x y}, key x = key y → x = y) (x y : α) :
    (x == y) = (compare (key x) (key y) == .eq) := by
  by_cases same : x = y
  · simp [same]
  · have apart : compare (key x) (key y) ≠ .eq := fun together =>
      same (injective (Std.compare_eq_iff_eq.mp together))
    rw [beq_false_of_ne same, beq_false_of_ne apart]

theorem order_cases (ordered : order store native left right = .ok ordering) :
    (looselyEqual store left right = (ordering == .eq) ∧ left.unsignedTwins right = false) ∨
      ∃ a b, left.toFloat? = some a ∧ right.toFloat? = some b ∧ a.compare? b = some ordering ∧
        (∀ m n, left = .int m → right ≠ .int n) ∧ ∀ m n, left = .uint m → right ≠ .uint n := by
  unfold order at ordered
  split at ordered
  next m n =>
    cases ordered
    exact .inl ⟨beq_of_key Int64.toInt Int64.toInt_inj.mp m n, rfl⟩
  next m n =>
    cases ordered
    exact .inl ⟨beq_of_key UInt64.toNat UInt64.toNat_inj.mp m n, rfl⟩
  next s t =>
    cases ordered
    exact .inl ⟨beq_of_key id id s t, rfl⟩
  next c d =>
    cases ordered
    exact .inl ⟨beq_of_key Char.toNat (fun same => Char.ext (UInt32.toNat_inj.mp same)) c d, rfl⟩
  next ints uints _ _ =>
    split at ordered
    next a b leftFloat rightFloat =>
      split at ordered
      next found compared =>
        cases ordered
        exact .inr ⟨a, b, leftFloat, rightFloat, compared, ints, uints⟩
      next => cases ordered
    next => cases ordered

theorem toFloat?_cases {value : Value} {x : Binary64} (number : value.toFloat? = some x) :
    (∃ n, value = .int n ∧ x = .ofInt n.toInt) ∨
      (∃ n, value = .uint n ∧ x = .ofInt (Int.ofNat n.toNat)) ∨ value = .float x := by
  cases value with
  | int n => exact .inl ⟨n, rfl, (Option.some.inj number).symm⟩
  | uint n => exact .inr (.inl ⟨n, rfl, (Option.some.inj number).symm⟩)
  | float y => exact .inr (.inr (congrArg Value.float (Option.some.inj number)))
  | _ => cases number

/-- Twins are never equal; all other numbers of two kinds, and all floats, are where their floats are. -/
theorem looselyEqual_floats (store : Store) {a b : Binary64} (leftFloat : left.toFloat? = some a)
    (rightFloat : right.toFloat? = some b) (ints : ∀ m n, left = .int m → right ≠ .int n)
    (uints : ∀ m n, left = .uint m → right ≠ .uint n) :
    (left.unsignedTwins right = a.equal b ∧ looselyEqual store left right = false) ∨
      (left.unsignedTwins right = false ∧ looselyEqual store left right = a.equal b) := by
  obtain ⟨m, rfl, rfl⟩ | ⟨m, rfl, rfl⟩ | rfl := toFloat?_cases leftFloat
  · obtain ⟨n, rfl, rfl⟩ | ⟨n, rfl, rfl⟩ | rfl := toFloat?_cases rightFloat
    · exact absurd rfl (ints m n rfl)
    · exact .inl ⟨rfl, rfl⟩
    · exact .inr ⟨rfl, rfl⟩
  · obtain ⟨n, rfl, rfl⟩ | ⟨n, rfl, rfl⟩ | rfl := toFloat?_cases rightFloat
    · exact .inl ⟨rfl, rfl⟩
    · exact absurd rfl (uints m n rfl)
    · exact .inl ⟨rfl, rfl⟩
  · obtain ⟨n, rfl, rfl⟩ | ⟨n, rfl, rfl⟩ | rfl := toFloat?_cases rightFloat
    · exact .inr ⟨rfl, rfl⟩
    · exact .inl ⟨rfl, rfl⟩
    · exact .inr ⟨rfl, rfl⟩

theorem looselyEqual_of_order (ordered : order store native left right = .ok ordering) :
    looselyEqual store left right = (ordering == .eq && !left.unsignedTwins right) ∧
      (left.unsignedTwins right = true → ordering = .eq) := by
  obtain ⟨same, apart⟩ | ⟨a, b, leftFloat, rightFloat, compared, ints, uints⟩ := order_cases ordered
  · simp [apart, same]
  · have together : a.equal b = (ordering == .eq) := by
      rw [Binary64.equal, compared]
      rfl
    obtain ⟨twins, apart⟩ | ⟨others, equal⟩ :=
      looselyEqual_floats store leftFloat rightFloat ints uints
    · simp [twins, apart, together]
    · simp [others, equal, together]

theorem order_of_order (ordered : order store native left right = .ok ordering) (other : String) :
    order store other left right = .ok ordering := by
  have same : (order store other left right).toOption = (order store native left right).toOption := by
    unfold order
    split <;> try rfl
    split <;> try rfl
    split <;> rfl
  rw [ordered] at same
  cases found : order store other left right with
  | error error => rw [found] at same; cases same
  | ok found' => rw [found] at same; cases same; rfl

end Order

section Says

variable {perform : Perform} {world : World} {left right : Value} {ordering : Ordering}

theorem says_compared (native : Standard) {name : String} (holds : Ordering → Bool)
    (asks : native.call perform [left, right] =
      Machine.ask fun store => compareBy store native.name holds left right)
    (ordered : order world.store name left right = .ok ordering) :
    native.Says perform world left right (holds ordering) := by
  have found := order_of_order ordered native.name
  rw [Standard.Says, asks, Machine.ask_apply, compareBy, found]
  rfl

theorem says_equal : Standard.equal.Says perform world left right (looselyEqual world.store left right) :=
  rfl

theorem order_of_less {result : Value} {after : World}
    (answered : Standard.less.call perform [left, right] world = .ok result after) :
    ∃ ordering, order world.store Standard.less.name left right = .ok ordering := by
  have asks : Standard.less.call perform [left, right] =
      Machine.ask fun store => compareBy store Standard.less.name (· == .lt) left right := rfl
  rw [asks, Machine.ask_apply, compareBy] at answered
  cases found : order world.store Standard.less.name left right with
  | ok ordering => exact ⟨ordering, rfl⟩
  | error error =>
      rw [found] at answered
      cases answered

end Says

/-- Whenever two values have an order, just one of less, equal and greater is true of them, and at most
and at least are what these make them, unless the values are an unsigned integer and its twin of another
kind. -/
theorem comparisons_agree_iff (perform : Perform) (world : World) (left right : Value)
    (ordered : ∃ result after, Standard.less.call perform [left, right] world = .ok result after) :
    ∃ less equal greater atMost atLeast : Bool,
      Standard.less.Says perform world left right less ∧
        Standard.equal.Says perform world left right equal ∧
        Standard.greater.Says perform world left right greater ∧
        Standard.lessEqual.Says perform world left right atMost ∧
        Standard.greaterEqual.Says perform world left right atLeast ∧
        (([less, equal, greater].count true = 1 ∧ atMost = (less || equal) ∧
          atLeast = (greater || equal)) ↔ left.unsignedTwins right = false) := by
  obtain ⟨result, after, answered⟩ := ordered
  obtain ⟨ordering, found⟩ := order_of_less answered
  obtain ⟨together, twins⟩ := looselyEqual_of_order found
  refine ⟨_, _, _, _, _, says_compared .less (· == .lt) rfl found, says_equal,
    says_compared .greater (· == .gt) rfl found, says_compared .lessEqual (· != .gt) rfl found,
    says_compared .greaterEqual (· != .lt) rfl found, ?_⟩
  rw [together]
  cases areTwins : left.unsignedTwins right with
  | false => cases ordering <;> decide
  | true =>
      rw [twins areTwins]
      decide

theorem comparisons_agree_iff_rounded :
    let left : Value := .int 9007199254740993
    let right : Value := .float ⟨4845873199050653696⟩
    let perform : Perform := fun _ => Machine.exhausted
    left.unsignedTwins right = false ∧
      (∃ result after, Standard.less.call perform [left, right] default = .ok result after) ∧
      ∃ less equal greater atMost atLeast : Bool,
        Standard.less.Says perform default left right less ∧
          Standard.equal.Says perform default left right equal ∧
          Standard.greater.Says perform default left right greater ∧
          Standard.lessEqual.Says perform default left right atMost ∧
          Standard.greaterEqual.Says perform default left right atLeast ∧
          [less, equal, greater].count true = 1 ∧ atMost = (less || equal) ∧
          atLeast = (greater || equal) := by
  intro left right perform
  have apart : left.unsignedTwins right = false := rfl
  have together : order (default : World).store Standard.less.name left right = .ok .eq := by
    decide +kernel
  have ordered : ∃ result after, Standard.less.call perform [left, right] default = .ok result after :=
    ⟨_, _, says_compared .less (· == .lt) rfl together⟩
  obtain ⟨less, equal, greater, atMost, atLeast, isLess, isEqual, isGreater, isAtMost, isAtLeast,
    agree⟩ := comparisons_agree_iff perform default left right ordered
  exact ⟨apart, ordered, less, equal, greater, atMost, atLeast, isLess, isEqual, isGreater, isAtMost,
    isAtLeast, agree.mpr apart⟩

/-- An integer and its unsigned twin: neither is less than the other, and they are not equal. -/
theorem Interpreter.twins_unrelated :
    (Value.int 5).unsignedTwins (.uint 5) = true ∧
      (Machine.attempt do
        let value ← evalText .none 30
          "(list (< 5 5ULL) (== 5 5ULL) (> 5 5ULL) (<= 5 5ULL) (>= 5 5ULL))"
        Machine.readStore fun store => store.text value :
          Machine (Except Error String)).run' (fresh ⟨10000, 32, false, false, false⟩) =
        some (.ok "(false false false true true)") := by
  refine ⟨by decide +kernel, ?_⟩
  decide +kernel

end StackLisp
