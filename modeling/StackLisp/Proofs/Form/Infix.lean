import StackLisp.Form.Reading
import StackLisp.Proofs.Machine.Tame

/-!
Infix blocks are grouped as the levels of their operators say. An operator has to its left what was
built with operators of higher levels, and to its right too; what was built with an operator of the
same level stands on the side that the level groups to. One tree at most has given items and is in
order in this sense, so it is enough that grouping leads to such a tree and that it comes back to
every tree of this kind from its items.
-/

namespace StackLisp

/-- What a tree must be built with last to stand to the left of an operator. -/
def Operator.TakesLeft (operator inner : Operator) : Prop :=
  operator.level < inner.level ∨ operator.level = inner.level ∧ operator.groupsRight = false

def Operator.TakesRight (operator inner : Operator) : Prop :=
  operator.level < inner.level ∨ operator.level = inner.level ∧ operator.groupsRight = true

def Operator.next (operator : Operator) : Nat :=
  if operator.groupsRight then operator.level else operator.level + 1

theorem operator?_groupsRight {item : Value} {operator : Operator}
    (found : operator? item = some operator) :
    operator.groupsRight = decide (operator.level = 1 ∨ operator.level = 7) := by
  unfold operator? at found
  split at found
  next symbol =>
    split at found
    · cases found
    · split at found
      all_goals cases found
      all_goals rfl
  next => cases found

theorem Operator.takesRight_iff {operator inner : Operator} :
    operator.TakesRight inner ↔ operator.next ≤ inner.level := by
  unfold TakesRight next
  cases operator.groupsRight with
  | false =>
      simp only [Bool.false_eq_true, and_false, or_false, ↓reduceIte]
      omega
  | true =>
      simp only [and_true, ↓reduceIte]
      omega

/-- Of two operators, the first one takes what the other has built to its left, if the other one does
not take what the first one would build to its right. -/
theorem Operator.takesLeft_iff {item other : Value} {operator inner : Operator}
    (found : operator? item = some operator) (foundInner : operator? other = some inner) :
    operator.TakesLeft inner ↔ operator.level < inner.next := by
  have side := operator?_groupsRight found
  have sideInner := operator?_groupsRight foundInner
  unfold TakesLeft next
  by_cases same : operator.level = inner.level
  · rw [same, ← sideInner] at side
    rw [same, side]
    cases inner.groupsRight <;> simp
  · cases inner.groupsRight with
    | false =>
        simp only [same, false_and, or_false, Bool.false_eq_true, ↓reduceIte]
        omega
    | true => simp only [same, false_and, or_false, ↓reduceIte]

namespace InfixTree

def items : InfixTree → List Value
  | .operand value => [value]
  | .apply operator left right => left.items ++ operator :: right.items

def last? : InfixTree → Option Operator
  | .operand _ => none
  | .apply operator _ _ => StackLisp.operator? operator

/-- Trees in which each operator has something to each side that it takes there. -/
inductive Ordered : InfixTree → Prop
  | operand (value : Value) : Ordered (.operand value)
  | apply {item : Value} {operator : Operator} {left right : InfixTree} :
    StackLisp.operator? item = some operator → Ordered left → Ordered right →
    (∀ inner, left.last? = some inner → operator.TakesLeft inner) →
    (∀ inner, right.last? = some inner → operator.TakesRight inner) →
    Ordered (.apply item left right)

def AtLeast (least : Nat) (tree : InfixTree) : Prop :=
  ∀ inner, tree.last? = some inner → least ≤ inner.level

def Follows (tree : InfixTree) (rest : List Value) : Prop :=
  ∀ operator, rest.head?.bind operator? = some operator →
    ∀ inner, tree.last? = some inner → operator.TakesLeft inner

def Below (least : Nat) (rest : List Value) : Prop :=
  ∀ operator, rest.head?.bind operator? = some operator → operator.level < least

inductive Continues : List Value → Prop
  | nil : Continues []
  | more {operator : Value} (operand : Value) {later : List Value} :
    (operator? operator).isSome → Continues later → Continues (operator :: operand :: later)

structure Grouped (least : Nat) (given : List Value) (tree : InfixTree) (rest : List Value) : Prop where
  items : tree.items ++ rest = given
  ordered : tree.Ordered
  atLeast : tree.AtLeast least
  below : Below least rest

theorem below_nil (least : Nat) : Below least [] := by
  intro operator found
  cases found

theorem follows_apply {item : Value} {operator : Operator} {left right : InfixTree} {rest : List Value}
    (found : operator? item = some operator) :
    (apply item left right).Follows rest ↔ Below operator.next rest := by
  have last : (apply item left right).last? = some operator := found
  constructor
  · intro follows outer foundOuter
    obtain ⟨next, _, isNext⟩ := Option.bind_eq_some_iff.mp foundOuter
    exact (Operator.takesLeft_iff isNext found).mp (follows outer foundOuter operator last)
  · intro below outer foundOuter inner same
    obtain ⟨next, _, isNext⟩ := Option.bind_eq_some_iff.mp foundOuter
    cases last.symm.trans same
    exact (Operator.takesLeft_iff isNext found).mpr (below outer foundOuter)

/-! Grouping, by what comes next. -/

theorem climb_first (fuel least : Nat) (first : Value) (later : List Value) :
    climb (fuel + 1) least (first :: later) = climbFrom fuel least (.operand first) later := by
  rw [climb]

theorem climbFrom_below {fuel least : Nat} {left : InfixTree} {later : List Value}
    (below : Below least later) : climbFrom fuel least left later = .ok (left, later) := by
  match fuel, later with
  | 0, [] | _ + 1, [] => rfl
  | 0, _ :: _ => rfl
  | fuel + 1, item :: later =>
      rw [climbFrom]
      cases found : StackLisp.operator? item with
      | none => rfl
      | some operator => exact if_pos (below operator found)

theorem climbFrom_taken {fuel least : Nat} {left : InfixTree} {item : Value} {later : List Value}
    {operator : Operator} (found : StackLisp.operator? item = some operator)
    (high : least ≤ operator.level) :
    climbFrom (fuel + 1) least left (item :: later) =
      (climb fuel operator.next later).bind fun grouped =>
        climbFrom fuel least (.apply item left grouped.1) grouped.2 := by
  rw [climbFrom, found]
  dsimp only
  rw [if_neg (Nat.not_lt_of_le high), Operator.next]
  cases climb fuel (if operator.groupsRight = true then operator.level else operator.level + 1)
    later <;> rfl

theorem below_of_not_taken {least : Nat} {item : Value} {later : List Value}
    (none : ∀ operator, StackLisp.operator? item = some operator → ¬ least ≤ operator.level) :
    Below least (item :: later) :=
  fun operator found => Nat.lt_of_not_le (none operator found)

mutual

theorem climb_grouped {fuel least : Nat} {given rest : List Value} {tree : InfixTree}
    (ran : climb fuel least given = .ok (tree, rest)) (enough : given.length ≤ fuel) :
    Grouped least given tree rest := by
  match fuel, given with
  | 0, _ =>
      rw [climb] at ran
      cases ran
  | _ + 1, [] => cases ran
  | _ + 1, first :: _ =>
      exact climbFrom_grouped ran (Nat.le_of_succ_le_succ enough) (.operand first)
        (fun _ none => nomatch none) (fun _ _ _ none => nomatch none)

theorem climbFrom_grouped {fuel least : Nat} {left tree : InfixTree} {later rest : List Value}
    (ran : climbFrom fuel least left later = .ok (tree, rest)) (enough : later.length ≤ fuel)
    (ordered : left.Ordered) (atLeast : left.AtLeast least) (follows : left.Follows later) :
    Grouped least (left.items ++ later) tree rest := by
  -- Whatever operator comes next may have the tree so far to its left: `follows` is what a round keeps,
  -- since grouping to the right of an operator stops in front of all that it may not pass.
  by_cases taken : ∃ item behind operator, later = item :: behind ∧
      StackLisp.operator? item = some operator ∧ least ≤ operator.level
  · obtain ⟨item, behind, operator, rfl, found, high⟩ := taken
    match fuel with
    | fuel + 1 =>
      have room : behind.length ≤ fuel := Nat.le_of_succ_le_succ enough
      rw [climbFrom_taken found high] at ran
      obtain ⟨right, behind', climbed, ran⟩ : ∃ right behind', climb fuel operator.next behind =
          .ok (right, behind') ∧
            climbFrom fuel least (.apply item left right) behind' = .ok (tree, rest) := by
        cases climbed : climb fuel operator.next behind with
        | error problem =>
            rw [climbed] at ran
            cases ran
        | ok grouped =>
            rw [climbed] at ran
            exact ⟨grouped.1, grouped.2, rfl, ran⟩
      have inner := climb_grouped climbed room
      have shorter : behind'.length ≤ fuel := by
        have whole := congrArg List.length inner.items
        rw [List.length_append] at whole
        omega
      have built : (apply item left right).Ordered :=
        .apply found ordered inner.ordered (follows operator found) fun inside last =>
          Operator.takesRight_iff.mpr (inner.atLeast inside last)
      have level : (apply item left right).AtLeast least := by
        intro inside last
        rw [last?, found] at last
        cases last
        exact high
      have whole := climbFrom_grouped ran shorter built level ((follows_apply found).mpr inner.below)
      rw [items, List.append_assoc, List.cons_append, inner.items] at whole
      exact whole
  · have below : Below least later := by
      cases later with
      | nil => exact below_nil least
      | cons item behind =>
          exact below_of_not_taken fun operator found high =>
            taken ⟨item, behind, operator, rfl, found, high⟩
    rw [climbFrom_below below] at ran
    cases ran
    exact ⟨rfl, ordered, atLeast, below⟩

end

/-! Grouping finds every tree that is in order. -/

theorem climb_items {tree : InfixTree} (ordered : tree.Ordered) {fuel least : Nat}
    {rest : List Value} (enough : (tree.items ++ rest).length ≤ fuel) (atLeast : tree.AtLeast least)
    (follows : tree.Follows rest) :
    ∃ left, rest.length ≤ left ∧
      climb fuel least (tree.items ++ rest) = climbFrom left least tree rest := by
  induction ordered generalizing fuel least rest with
  | operand value =>
      match fuel with
      | fuel + 1 => exact ⟨fuel, Nat.le_of_succ_le_succ enough, climb_first fuel least value rest⟩
  | @apply item operator left right found _ _ takesLeft takesRight ihLeft ihRight =>
      have high : least ≤ operator.level := atLeast operator (by rw [last?, found])
      rw [items, List.append_assoc, List.cons_append] at enough ⊢
      obtain ⟨room, fits, front⟩ := ihLeft enough
        (fun inner last => Nat.le_trans high (by
          rcases takesLeft inner last with less | ⟨same, _⟩ <;> omega))
        (fun outer same inner last => by
          cases found.symm.trans same
          exact takesLeft inner last)
      match room with
      | room + 1 =>
          have below := (follows_apply found).mp follows
          have level (inner : Operator) (last : right.last? = some inner) :=
            Operator.takesRight_iff.mp (takesRight inner last)
          obtain ⟨inside, _, back⟩ := ihRight (Nat.le_of_succ_le_succ fits) level
            (fun outer next inner last => .inl (Nat.lt_of_lt_of_le (below outer next) (level inner last)))
          refine ⟨room, ?_, ?_⟩
          · rw [List.length_cons, List.length_append] at fits
            omega
          · rw [front, climbFrom_taken found high, back, climbFrom_below below]
            rfl

/-! Which items are grouped. -/

theorem Continues.append {front back : List Value} (first : Continues front)
    (second : Continues back) : Continues (front ++ back) := by
  induction first with
  | nil => exact second
  | more operand isOperator _ ih => exact .more operand isOperator ih

theorem continues_iff (later : List Value) :
    Continues later ↔ later.length % 2 = 0 ∧
      ∀ place item, place % 2 = 0 → later[place]? = some item → (operator? item).isSome := by
  match later with
  | [] => exact ⟨fun _ => ⟨rfl, fun _ _ _ none => nomatch none⟩, fun _ => .nil⟩
  | [_] =>
      constructor
      · intro continues
        cases continues
      · rintro ⟨even, _⟩
        cases even
  | item :: between :: later =>
      have rest := continues_iff later
      constructor
      · rintro (_ | ⟨_, isOperator, continues⟩)
        obtain ⟨even, places⟩ := rest.mp continues
        refine ⟨by rw [List.length_cons, List.length_cons]; omega, fun place item front found => ?_⟩
        match place with
        | 0 =>
            cases found
            exact isOperator
        | 1 => cases front
        | place + 2 => exact places place item (by omega) found
      · rintro ⟨even, places⟩
        refine .more between (places 0 item rfl rfl) (rest.mpr ⟨?_, fun place item front found => ?_⟩)
        · rw [List.length_cons, List.length_cons] at even
          omega
        · exact places (place + 2) item (by omega) found

theorem operators_between (given : List Value) :
    (∃ first later, given = first :: later ∧ Continues later) ↔
      given.length % 2 = 1 ∧ ∀ place item, place % 2 = 1 → given[place]? = some item →
        (operator? item).isSome := by
  cases given with
  | nil =>
      constructor
      · rintro ⟨first, later, none, _⟩
        cases none
      · rintro ⟨odd, _⟩
        cases odd
  | cons first later =>
      have shifted := continues_iff later
      constructor
      · rintro ⟨_, _, same, continues⟩
        cases same
        obtain ⟨even, places⟩ := shifted.mp continues
        refine ⟨by rw [List.length_cons]; omega, fun place item odd found => ?_⟩
        match place with
        | 0 => cases odd
        | place + 1 => exact places place item (by omega) found
      · rintro ⟨odd, places⟩
        refine ⟨first, later, rfl, shifted.mpr ⟨?_, fun place item even found => ?_⟩⟩
        · rw [List.length_cons] at odd
          omega
        · exact places (place + 1) item (by omega) found

theorem Ordered.items_eq {tree : InfixTree} (ordered : tree.Ordered) :
    ∃ first later, tree.items = first :: later ∧ Continues later := by
  induction ordered with
  | operand value => exact ⟨value, [], rfl, .nil⟩
  | @apply item _ _ _ found _ _ _ _ ihLeft ihRight =>
      obtain ⟨first, front, left, continues⟩ := ihLeft
      obtain ⟨second, back, right, others⟩ := ihRight
      refine ⟨first, front ++ item :: second :: back, ?_, continues.append (.more second ?_ others)⟩
      · rw [items, left, right, List.cons_append]
      · rw [found]
        rfl

mutual

theorem climb_succeeds {fuel least : Nat} (first : Value) {later : List Value}
    (continues : Continues later) (enough : later.length < fuel) :
    ∃ tree rest, climb fuel least (first :: later) = .ok (tree, rest) ∧ Continues rest ∧
      rest.length ≤ later.length := by
  match fuel with
  | fuel + 1 =>
      rw [climb_first]
      exact climbFrom_succeeds _ continues (Nat.le_of_lt_succ enough)

theorem climbFrom_succeeds {fuel least : Nat} (left : InfixTree) {later : List Value}
    (continues : Continues later) (enough : later.length ≤ fuel) :
    ∃ tree rest, climbFrom fuel least left later = .ok (tree, rest) ∧ Continues rest ∧
      rest.length ≤ later.length := by
  cases continues with
  | nil => exact ⟨left, [], climbFrom_below (below_nil least), .nil, Nat.le_refl _⟩
  | @more item operand later isOperator continues =>
      obtain ⟨operator, found⟩ := Option.isSome_iff_exists.mp isOperator
      by_cases high : least ≤ operator.level
      · match fuel with
        | fuel + 1 =>
            have room : later.length < fuel := Nat.le_of_succ_le_succ enough
            obtain ⟨right, behind, climbed, others, shorter⟩ :=
              climb_succeeds operand continues room
            rw [climbFrom_taken found high, climbed]
            obtain ⟨tree, rest, ran, ends, less⟩ := climbFrom_succeeds (.apply item left right) others
              (Nat.le_trans shorter (Nat.le_of_lt room))
            refine ⟨tree, rest, ran, ends, ?_⟩
            rw [List.length_cons, List.length_cons]
            omega
      · refine ⟨left, _, climbFrom_below (below_of_not_taken fun other same => ?_), ?_, Nat.le_refl _⟩
        · cases found.symm.trans same
          exact high
        · exact .more operand isOperator continues

end

theorem ofItems_iff (given : List Value) (tree : InfixTree) :
    ofItems given = .ok (tree, none) ↔ tree.items = given ∧ tree.Ordered := by
  constructor
  · intro ran
    unfold ofItems at ran
    cases climbed : climb (2 * given.length + 1) 0 given with
    | error problem =>
        rw [climbed] at ran
        cases ran
    | ok result =>
        obtain ⟨found, rest⟩ := result
        rw [climbed] at ran
        obtain ⟨rfl, none⟩ := Prod.mk.inj (Except.ok.inj ran)
        have grouped := climb_grouped climbed (by omega)
        obtain rfl := List.head?_eq_none_iff.mp none
        exact ⟨(List.append_nil _).symm.trans grouped.items, grouped.ordered⟩
  · rintro ⟨rfl, ordered⟩
    obtain ⟨left, _, climbed⟩ : ∃ left, ([] : List Value).length ≤ left ∧
        climb (2 * tree.items.length + 1) 0 (tree.items ++ []) = climbFrom left 0 tree [] :=
      climb_items ordered (by rw [List.append_nil]; omega) (fun _ _ => Nat.zero_le _)
        (fun _ none => nomatch none)
    rw [List.append_nil, climbFrom_below (below_nil 0)] at climbed
    rw [ofItems, climbed]
    rfl

theorem ofItems_succeeds (given : List Value) :
    (∃ tree, ofItems given = .ok (tree, none)) ↔
      ∃ first later, given = first :: later ∧ Continues later := by
  constructor
  · rintro ⟨tree, grouped⟩
    obtain ⟨rfl, ordered⟩ := (ofItems_iff given tree).mp grouped
    exact ordered.items_eq
  · rintro ⟨first, later, rfl, continues⟩
    obtain ⟨tree, rest, climbed, others, _⟩ : ∃ tree rest,
        climb (2 * (first :: later).length + 1) 0 (first :: later) = .ok (tree, rest) ∧
          Continues rest ∧ rest.length ≤ later.length :=
      climb_succeeds first continues (by rw [List.length_cons]; omega)
    have grouped := climb_grouped climbed (by omega)
    refine ⟨tree, ?_⟩
    rw [ofItems, climbed]
    cases others with
    | nil => rfl
    | more _ isOperator _ =>
        obtain ⟨operator, found⟩ := Option.isSome_iff_exists.mp isOperator
        exact absurd (grouped.below operator found) (Nat.not_lt_zero _)

/-! Trees as values. -/

def Writes : InfixTree → Value → Prop
  | .operand item, value => value = item
  | .apply item left right, value => ∃ first second,
    value.items? = some [item, first, second] ∧ left.Writes first ∧ right.Writes second

theorem toValue_writes (store : Store) (tree : InfixTree) : tree.Writes (tree.toValue store).1 := by
  induction tree generalizing store with
  | operand value => rw [toValue, Writes]
  | apply operator left right ihLeft ihRight =>
      exact ⟨_, _, rfl, ihLeft store, ihRight (left.toValue store).2⟩

end InfixTree

namespace Form

open Machine

section Blocks

variable (again : ReadPart) (context : Context) {ref : ArrayRef} {world : World}

theorem readInfix_grouped {tree : InfixTree} (some : (world.store.array ref).toList ≠ [])
    (grouped : InfixTree.ofItems (world.store.array ref).toList = .ok (tree, none)) :
    readInfix again context [.array ref] world =
      again .form context (tree.toValue world.store).1
        { world with store := (tree.toValue world.store).2 } := by
  cases holds : (world.store.array ref).toList with
  | nil => exact absurd holds some
  | cons item later =>
      rw [holds] at grouped
      simp only [readInfix, bind_apply, readStore_apply, holds, grouped]
      rfl

theorem readInfix_refused (some : (world.store.array ref).toList ≠ [])
    (refused : ∀ tree, InfixTree.ofItems (world.store.array ref).toList ≠ .ok (tree, none)) :
    ∃ problem, readInfix again context [.array ref] world =
      .error (.error (.compile problem)) world := by
  cases holds : (world.store.array ref).toList with
  | nil => exact absurd holds some
  | cons item later =>
      rw [holds] at refused
      cases grouped : InfixTree.ofItems (item :: later) with
      | error problem =>
          refine ⟨problem, ?_⟩
          simp only [readInfix, bind_apply, readStore_apply, holds, grouped]
          rfl
      | ok result =>
          obtain ⟨tree, extra⟩ := result
          cases extra with
          | none => exact absurd grouped (refused tree)
          | some extra =>
              refine ⟨.infixUnexpected (world.store.text extra), ?_⟩
              simp only [readInfix, bind_apply, readStore_apply, holds, grouped]
              rfl

end Blocks

/-- An infix block is grouped exactly if it consists of operands with operators between them; it is
read as the only tree of its items, in their order, in which every operator has to each side what it
takes there. Every other block is refused. -/
theorem infix_groups (again : ReadPart) (context : Context) (ref : ArrayRef) (world : World)
    {given : List Value} (holds : (world.store.array ref).toList = given) :
    ((∃ tree, InfixTree.ofItems given = .ok (tree, none)) ↔
      given.length % 2 = 1 ∧ ∀ place item, place % 2 = 1 → given[place]? = some item →
        (operator? item).isSome) ∧
    (∀ tree, InfixTree.ofItems given = .ok (tree, none) ↔ tree.items = given ∧ tree.Ordered) ∧
    (∀ tree other : InfixTree, tree.Ordered → other.Ordered → tree.items = other.items →
      tree = other) ∧
    (∀ tree, InfixTree.ofItems given = .ok (tree, none) → ∃ value store, tree.Writes value ∧
      tree.toValue world.store = (value, store) ∧
      readInfix again context [.array ref] world = again .form context value { world with store }) ∧
    (given ≠ [] → (∀ tree, InfixTree.ofItems given ≠ .ok (tree, none)) →
      ∃ problem, readInfix again context [.array ref] world =
        .error (.error (.compile problem)) world) := by
  subst holds
  refine ⟨?_, InfixTree.ofItems_iff _, ?_, ?_, ?_⟩
  · exact (InfixTree.ofItems_succeeds _).trans (InfixTree.operators_between _)
  · intro tree other ordered others same
    have first := (InfixTree.ofItems_iff _ tree).mpr ⟨same, ordered⟩
    have second := (InfixTree.ofItems_iff _ other).mpr ⟨rfl, others⟩
    rw [first] at second
    exact (Prod.mk.inj (Except.ok.inj second)).1
  · intro tree grouped
    have some : (world.store.array ref).toList ≠ [] := by
      intro none
      rw [none] at grouped
      cases grouped
    exact ⟨_, _, tree.toValue_writes world.store, rfl, readInfix_grouped again context some grouped⟩
  · exact fun some refused => readInfix_refused again context some refused

section Powers

def powerSymbol (name : String) : Value := .symbol ⟨name, 0, false⟩

def powers : List Value :=
  [powerSymbol "a", powerSymbol "=", .int 1, powerSymbol "-", .int 2, powerSymbol "-", .int 3,
    powerSymbol "**", .int 2, powerSymbol "**", powerSymbol "b"]

def powersTree : InfixTree :=
  .apply (powerSymbol "=") (.operand (powerSymbol "a"))
    (.apply (powerSymbol "-") (.apply (powerSymbol "-") (.operand (.int 1)) (.operand (.int 2)))
      (.apply (powerSymbol "**") (.operand (.int 3))
        (.apply (powerSymbol "**") (.operand (.int 2)) (.operand (powerSymbol "b")))))

theorem infix_groups_powers :
    let world : World := ⟨default, { Store.empty with arrays := #[powers.toArray] }, .fresh, .empty⟩
    let asIs : ReadPart := fun _ _ value => return .constant value
    (world.store.array 0).toList = powers ∧ powersTree.Ordered ∧
      ∃ value after, powersTree.Writes value ∧
        readInfix asIs .start [.array 0] world = .ok (.constant value) after := by
  intro world asIs
  have holds : (world.store.array 0).toList = powers := rfl
  have grouped : InfixTree.ofItems powers = .ok (powersTree, none) := by rfl
  obtain ⟨_, ordered, _, reads, _⟩ := infix_groups asIs .start 0 world holds
  obtain ⟨value, store, writes, _, read⟩ := reads powersTree grouped
  exact ⟨holds, ((ordered powersTree).mp grouped).2, value, { world with store }, writes, read⟩

end Powers

end Form

end StackLisp
