import Mathlib.Data.List.Forall2
import StackLisp.Proofs.Native.Arithmetic

/-!
Arithmetic on any number of integers. It goes from the left to the right as exact calculation does, and
stops where a total has no value of the kind, where it would divide by zero, or at an argument of another
kind. One step is compared with one exact step, and from that a whole run with a whole fold.
-/

namespace StackLisp

open Machine

inductive Value.Denotes : Value → Kind → Int → Prop
  | int (n : Int64) : Denotes (.int n) .int n.toInt
  | uint (n : UInt64) : Denotes (.uint n) .uint n.toNat

def Standard.operation? : Standard → Option (Int → Int → Int)
  | .add => some (· + ·)
  | .sub => some (· - ·)
  | .mul => some (· * ·)
  | .div => some Int.tdiv
  | _ => none

/-- Where the calculation starts, and what it goes through. A single number is taken from zero by a
subtraction. -/
def Standard.chain : Standard → List Int → List Int
  | .sub, [only] => [0, only]
  | _, numbers => numbers

section Folding

variable (native : Standard) (op : Int → Int → Int)

/-- Every number that an exact calculation passes through, the first and the last one included, is that
of a value of the kind, and nothing is divided by zero. -/
structure Standard.Stays (kind : Kind) (start : Int) (later : List Int) : Prop where
  values : ∀ total ∈ later.scanl op start, ∃ value, Value.Denotes value kind total
  divisors : native = .div → 0 ∉ later

/-- Why a calculation that has come to a total stops at the next argument. -/
inductive Standard.StopsAt (store : Store) (kind : Kind) (total : Int) (item : Value) : Error → Prop
  | noResult {n : Int} : item.Denotes kind n →
    native = .div ∧ n = 0 ∨ (¬ ∃ value, Value.Denotes value kind (op total n)) →
    StopsAt store kind total item native.noResult
  | otherKind : (∀ n, ¬ item.Denotes kind n) →
    StopsAt store kind total item (notNumber store native.name "a number" item)

/-- The leftmost step of a calculation that fails: the first argument is no number, or the calculation
goes well up to an argument and stops there. -/
inductive Standard.Stops (store : Store) : List Value → Error → Prop
  | first {item : Value} {later : List Value} : item.isNumber = false →
    Stops store (item :: later) (notNumber store native.name "a number" item)
  | later {kind : Kind} {start : Int} {numbers : List Int} {first item : Value}
    {front back : List Value} {error : Error} :
    first.Denotes kind start → List.Forall₂ (Value.Denotes · kind) front numbers →
    native.Stays op kind start numbers →
    native.StopsAt op store kind (numbers.foldl op start) item error →
    Stops store (first :: (front ++ item :: back)) error

end Folding

section Calculation

variable {native : Standard} {op : Int → Int → Int} {number : NumberOp} (store : Store)

def Standard.Exact (native : Standard) (op : Int → Int → Int) (number : NumberOp) : Prop :=
  ∀ m n, number.word.exact m n = if native = .div ∧ n = 0 then none else some (op m n)

theorem Value.Denotes.eq {value : Value} {kind : Kind} {m n : Int} (left : value.Denotes kind m)
    (right : value.Denotes kind n) : m = n := by
  cases left with
  | int => cases right; rfl
  | uint => cases right; rfl

theorem Value.Denotes.isNumber {value : Value} {kind : Kind} {n : Int}
    (denotes : value.Denotes kind n) : value.isNumber = true := by
  cases denotes with
  | int => rfl
  | uint => rfl

def Kind.integer? (kind : Kind) (n : Int) : Option Value :=
  match kind with
  | .int => (int64? n).map .int
  | .uint => (uint64? n).map .uint
  | _ => none

theorem Kind.integer?_eq_some_iff {kind : Kind} {n : Int} {value : Value} :
    kind.integer? n = some value ↔ value.Denotes kind n := by
  constructor
  · intro found
    cases kind with
    | int =>
        obtain ⟨word, isWord, rfl⟩ := Option.map_eq_some_iff.mp found
        exact int64?_eq_some_iff.mp isWord ▸ .int word
    | uint =>
        obtain ⟨word, isWord, rfl⟩ := Option.map_eq_some_iff.mp found
        exact uint64?_eq_some_iff.mp isWord ▸ .uint word
    | _ => cases found
  · intro denotes
    cases denotes with
    | int word => exact congrArg (Option.map Value.int) (int64?_toInt word)
    | uint word => exact congrArg (Option.map Value.uint) (uint64?_toNat word)

theorem calculate_denotes {left right : Value} {kind : Kind} {m n : Int}
    (total : left.Denotes kind m) (operand : right.Denotes kind n) :
    calculate store native.name number left right =
      ((number.word.exact m n).bind kind.integer?).elim (.error native.noResult) .ok := by
  cases total with
  | int a =>
      cases operand with
      | int b =>
          have words : calculate store native.name number (.int a) (.int b) =
              wordResult native.name .int ((number.word.exact a.toInt b.toInt).bind int64?) := rfl
          rw [words]
          cases number.word.exact a.toInt b.toInt with
          | none => rfl
          | some result =>
              simp only [Option.bind_some, Kind.integer?]
              cases int64? result <;> rfl
  | uint a =>
      cases operand with
      | uint b =>
          have words : calculate store native.name number (.uint a) (.uint b) =
              wordResult native.name .uint ((number.word.exact a.toNat b.toNat).bind uint64?) := rfl
          rw [words]
          cases number.word.exact a.toNat b.toNat with
          | none => rfl
          | some result =>
              simp only [Option.bind_some, Kind.integer?]
              cases uint64? result <;> rfl

theorem calculate_otherKind {left right : Value} {kind : Kind} {m : Int}
    (total : left.Denotes kind m) (other : ∀ n, ¬ right.Denotes kind n)
    (floatless : ∀ x, right ≠ .float x) :
    calculate store native.name number left right =
      .error (notNumber store native.name "a number" right) := by
  cases total with
  | int a =>
      cases right with
      | int b => exact absurd (.int b) (other _)
      | float x => exact absurd rfl (floatless x)
      | _ => rfl
  | uint a =>
      cases right with
      | uint b => exact absurd (.uint b) (other _)
      | float x => exact absurd rfl (floatless x)
      | _ => rfl

theorem calculate_cases (exact' : native.Exact op number) {left right : Value} {kind : Kind} {m : Int}
    (total : left.Denotes kind m) (floatless : ∀ x, right ≠ .float x) :
    (∃ n value, right.Denotes kind n ∧ value.Denotes kind (op m n) ∧ (native = .div → n ≠ 0) ∧
        calculate store native.name number left right = .ok value) ∨
      ∃ error, native.StopsAt op store kind m right error ∧
        calculate store native.name number left right = .error error := by
  by_cases same : ∃ n, right.Denotes kind n
  · obtain ⟨n, operand⟩ := same
    have step : calculate store native.name number left right = _ := calculate_denotes store total operand
    rw [exact'] at step
    by_cases divides : native = .div ∧ n = 0
    · rw [if_pos divides] at step
      exact .inr ⟨_, .noResult operand (.inl divides), step⟩
    · rw [if_neg divides, Option.bind_some] at step
      cases found : kind.integer? (op m n) with
      | some value =>
          rw [found] at step
          exact .inl ⟨n, value, operand, Kind.integer?_eq_some_iff.mp found,
            fun isDiv isZero => divides ⟨isDiv, isZero⟩, step⟩
      | none =>
          rw [found] at step
          refine .inr ⟨_, .noResult operand (.inr ?_), step⟩
          rintro ⟨value, denotes⟩
          rw [Kind.integer?_eq_some_iff.mpr denotes] at found
          cases found
  · have other : ∀ n, ¬ right.Denotes kind n := fun n denotes => same ⟨n, denotes⟩
    exact .inr ⟨_, .otherKind other, calculate_otherKind store total other floatless⟩

theorem stays_nil {kind : Kind} {start : Int} {first : Value} (denotes : first.Denotes kind start) :
    native.Stays op kind start [] := by
  refine ⟨fun total member => ⟨first, ?_⟩, fun _ => List.not_mem_nil⟩
  rw [List.scanl_nil, List.mem_singleton] at member
  exact member ▸ denotes

theorem stays_cons_iff {kind : Kind} {start n : Int} {later : List Int} :
    native.Stays op kind start (n :: later) ↔ (∃ value, Value.Denotes value kind start) ∧
      (native = .div → n ≠ 0) ∧ native.Stays op kind (op start n) later := by
  constructor
  · intro stays
    have values := stays.values
    simp only [List.scanl_cons, List.forall_mem_cons] at values
    exact ⟨values.1, fun isDiv isZero => stays.divisors isDiv (by simp [isZero]), values.2,
      fun isDiv member => stays.divisors isDiv (List.mem_cons_of_mem _ member)⟩
  · rintro ⟨represented, divisor, stays⟩
    refine ⟨?_, fun isDiv member => ?_⟩
    · simp only [List.scanl_cons, List.forall_mem_cons]
      exact ⟨represented, stays.values⟩
    · rcases List.mem_cons.mp member with isZero | member
      · exact divisor isDiv isZero.symm
      · exact stays.divisors isDiv member

/-- A whole run: all operands are of the kind and the total is exact, or the calculation goes well up
to an operand and stops there. -/
theorem calculateOn_cases (exact' : native.Exact op number) {first : Value} {kind : Kind} {start : Int}
    (denotes : first.Denotes kind start) {arguments : List Value}
    (floatless : ∀ x, Value.float x ∉ arguments) :
    (∃ numbers value, List.Forall₂ (Value.Denotes · kind) arguments numbers ∧
        native.Stays op kind start numbers ∧ value.Denotes kind (numbers.foldl op start) ∧
        calculateOn store native.name number first arguments = .ok value) ∨
      ∃ front numbers item back error, arguments = front ++ item :: back ∧
        List.Forall₂ (Value.Denotes · kind) front numbers ∧ native.Stays op kind start numbers ∧
        native.StopsAt op store kind (numbers.foldl op start) item error ∧
        calculateOn store native.name number first arguments = .error error := by
  induction arguments generalizing first start with
  | nil => exact .inl ⟨[], first, .nil, stays_nil denotes, denotes, rfl⟩
  | cons item later ih =>
      have others : ∀ x, Value.float x ∉ later := fun x member =>
        floatless x (List.mem_cons_of_mem _ member)
      have noFloat : ∀ x, item ≠ .float x := fun x same => floatless x (by simp [same])
      have goesOn : calculateOn store native.name number first (item :: later) =
          calculate store native.name number first item >>= fun value =>
            calculateOn store native.name number value later := rfl
      rw [goesOn]
      rcases calculate_cases store exact' denotes noFloat with
        ⟨n, value, operand, total, divisor, step⟩ | ⟨error, stops, step⟩
      · have stays {numbers : List Int} (rest : native.Stays op kind (op start n) numbers) :
            native.Stays op kind start (n :: numbers) :=
          stays_cons_iff.mpr ⟨⟨first, denotes⟩, divisor, rest⟩
        rw [step]
        rcases ih total others with ⟨numbers, result, all, rest, exactly, ran⟩ |
          ⟨front, numbers, item', back, error, rfl, all, rest, stops, ran⟩
        · exact .inl ⟨n :: numbers, result, .cons operand all, stays rest, exactly, ran⟩
        · exact .inr ⟨item :: front, n :: numbers, item', back, error, rfl, .cons operand all,
            stays rest, stops, ran⟩
      · rw [step]
        exact .inr ⟨[], [], item, later, error, rfl, .nil, stays_nil denotes, stops, rfl⟩

theorem Standard.Stays.start {kind : Kind} {start : Int} {later : List Int}
    (stays : native.Stays op kind start later) : ∃ value, Value.Denotes value kind start := by
  refine stays.values start ?_
  cases later with
  | nil => simp
  | cons n later => simp

theorem Standard.Stays.between {kind : Kind} {start n : Int} {front back : List Int}
    (stays : native.Stays op kind start (front ++ n :: back)) :
    (native = .div → n ≠ 0) ∧ ∃ value, Value.Denotes value kind (op (front.foldl op start) n) := by
  induction front generalizing start with
  | nil =>
      obtain ⟨_, divisor, rest⟩ := stays_cons_iff.mp stays
      exact ⟨divisor, rest.start⟩
  | cons m front ih => exact ih (stays_cons_iff.mp stays).2.2

theorem denoted_unique {kind : Kind} {arguments : List Value} {numbers others : List Int}
    (left : List.Forall₂ (Value.Denotes · kind) arguments numbers)
    (right : List.Forall₂ (Value.Denotes · kind) arguments others) : numbers = others := by
  induction left generalizing others with
  | nil => cases right; rfl
  | cons denotes _ ih =>
      cases right with
      | cons denotes' later => rw [denotes.eq denotes', ih later]

theorem denoted_between {kind : Kind} {front back : List Value} {item : Value}
    {numbers frontNumbers : List Int}
    (all : List.Forall₂ (Value.Denotes · kind) (front ++ item :: back) numbers)
    (frontAll : List.Forall₂ (Value.Denotes · kind) front frontNumbers) :
    ∃ n rest, item.Denotes kind n ∧ numbers = frontNumbers ++ n :: rest := by
  induction frontAll generalizing numbers with
  | nil =>
      obtain ⟨n, rest, denotes, _, rfl⟩ := List.forall₂_cons_left_iff.mp all
      exact ⟨n, rest, denotes, rfl⟩
  | cons first _ ih =>
      obtain ⟨m, others, first', later, rfl⟩ := List.forall₂_cons_left_iff.mp all
      obtain ⟨n, rest, denotes, rfl⟩ := ih later
      exact ⟨n, rest, denotes, by rw [first.eq first', List.cons_append]⟩

theorem denoted_of_mem {kind : Kind} {arguments : List Value} {numbers : List Int}
    (all : List.Forall₂ (Value.Denotes · kind) arguments numbers) {item : Value}
    (member : item ∈ arguments) : ∃ n, item.Denotes kind n := by
  induction all with
  | nil => cases member
  | cons denotes _ ih =>
      rcases List.mem_cons.mp member with rfl | member
      · exact ⟨_, denotes⟩
      · exact ih member

theorem floatless_of_denoted {kind : Kind} {arguments : List Value} {numbers : List Int}
    (all : List.Forall₂ (Value.Denotes · kind) arguments numbers) (x : Binary64) :
    Value.float x ∉ arguments := by
  intro member
  obtain ⟨n, denotes⟩ := denoted_of_mem all member
  cases denotes

theorem calculateOn_denoted (exact' : native.Exact op number) {first : Value} {kind : Kind}
    {start : Int} (denotes : first.Denotes kind start) {arguments : List Value} {numbers : List Int}
    (all : List.Forall₂ (Value.Denotes · kind) arguments numbers) :
    (native.Stays op kind start numbers → ∃ value, value.Denotes kind (numbers.foldl op start) ∧
        calculateOn store native.name number first arguments = .ok value) ∧
      (¬ native.Stays op kind start numbers →
        calculateOn store native.name number first arguments = .error native.noResult) := by
  rcases calculateOn_cases store exact' denotes (floatless_of_denoted all) with
    ⟨others, value, denoted, stays, total, ran⟩ |
    ⟨front, frontNumbers, item, back, error, rfl, frontAll, _, stops, ran⟩
  · obtain rfl := denoted_unique all denoted
    exact ⟨fun _ => ⟨value, total, ran⟩, fun leaves => absurd stays leaves⟩
  · obtain ⟨n, rest, operand, rfl⟩ := denoted_between all frontAll
    cases stops with
    | noResult operand' reason =>
        rw [operand'.eq operand] at reason
        refine ⟨fun stays => ?_, fun _ => ran⟩
        obtain ⟨divisor, represented⟩ := stays.between
        rcases reason with ⟨isDiv, isZero⟩ | nowhere
        · exact absurd isZero (divisor isDiv)
        · exact absurd represented nowhere
    | otherKind other => exact absurd operand (other n)

theorem exists_number (folds : native.operation? = some op) :
    ∃ number, native.Exact op number ∧ ∀ (host : Host) (perform : Perform) (world : World)
      (first : Value) (later : List Value), (native = .sub → later ≠ []) →
        callNative host perform native.name (.standard native) (first :: later) world =
          ofExcept (if first.isNumber then calculateOn world.store native.name number first later
            else .error (notNumber world.store native.name "a number" first)) world := by
  cases native with
  | add =>
      cases folds
      exact ⟨.add, fun _ _ => rfl, fun _ _ _ _ _ _ => rfl⟩
  | sub =>
      cases folds
      refine ⟨.sub, fun _ _ => rfl, fun _ _ _ first later several => ?_⟩
      cases later with
      | nil => exact absurd rfl (several rfl)
      | cons second others => rfl
  | mul =>
      cases folds
      exact ⟨.mul, fun _ _ => rfl, fun _ _ _ _ _ _ => rfl⟩
  | div =>
      cases folds
      exact ⟨.div, fun m n => by simp [NumberOp.div, WordOp.div], fun _ _ _ _ _ _ => rfl⟩
  | _ => cases folds

theorem negation_apply (host : Host) (perform : Perform) (only : Value) (world : World) :
    callNative host perform Standard.sub.name (.standard .sub) [only] world =
      ofExcept (calculateOn world.store Standard.sub.name .sub (.int 0) [only]) world := by
  have once : calculateOn world.store Standard.sub.name .sub (.int 0) [only] =
      calculate world.store Standard.sub.name .sub (.int 0) only := bind_pure _
  rw [once]
  rfl

end Calculation

def Mixed (arguments : List Value) : Prop :=
  (∃ item ∈ arguments, item.isNumber = false) ∨
    ∃ m n, Value.int m ∈ arguments ∧ Value.uint n ∈ arguments

theorem not_mixed {kind : Kind} {arguments : List Value} {numbers : List Int}
    (all : List.Forall₂ (Value.Denotes · kind) arguments numbers) : ¬ Mixed arguments := by
  rintro (⟨item, member, noNumber⟩ | ⟨m, n, signed, unsigned⟩)
  · obtain ⟨n, denotes⟩ := denoted_of_mem all member
    rw [denotes.isNumber] at noNumber
    cases noNumber
  · obtain ⟨_, signedKind⟩ := denoted_of_mem all signed
    obtain ⟨_, unsignedKind⟩ := denoted_of_mem all unsigned
    cases signedKind
    cases unsignedKind

theorem isNumber_cases {item : Value} (isNumber : item.isNumber = true)
    (noFloat : ∀ x, item ≠ .float x) : ∃ kind n, item.Denotes kind n := by
  cases item with
  | int n => exact ⟨_, _, .int n⟩
  | uint n => exact ⟨_, _, .uint n⟩
  | float x => exact absurd rfl (noFloat x)
  | _ => cases isNumber

theorem chain_several {native : Standard} {n : Int} {later : List Int}
    (several : native = .sub → later ≠ []) : native.chain (n :: later) = n :: later := by
  cases native with
  | sub =>
      cases later with
      | nil => exact absurd rfl (several rfl)
      | cons m others => rfl
  | _ => rfl

theorem negation_folds (only : Value) (world : World) :
    (∀ kind n, only.Denotes kind n → kind ≠ .uint →
      (Standard.sub.Stays (· - ·) kind 0 [n] → ∃ value, value.Denotes kind (0 - n) ∧
          Standard.sub.Returns [only] world (.ok value)) ∧
        (¬ Standard.sub.Stays (· - ·) kind 0 [n] →
          Standard.sub.Returns [only] world (.error Standard.sub.noResult))) ∧
      (only.isNumber = false → Standard.sub.Returns [only] world
        (.error (notNumber world.store Standard.sub.name "a number" only))) := by
  have returns {outcome : Except Error Value}
      (ran : calculateOn world.store Standard.sub.name .sub (.int 0) [only] = outcome) :
      Standard.sub.Returns [only] world outcome :=
    fun host perform => ran ▸ negation_apply host perform only world
  have zero : (Value.int 0).Denotes .int 0 := .int 0
  refine ⟨fun kind n operand signed => ?_, fun noNumber => ?_⟩
  · cases operand with
    | int n =>
        have exact' : Standard.sub.Exact (· - ·) .sub := fun _ _ => rfl
        obtain ⟨stays, leaves⟩ := calculateOn_denoted world.store exact' zero (.cons (.int n) .nil)
        refine ⟨fun inside => ?_, fun outside => returns (leaves outside)⟩
        obtain ⟨value, denotes, ran⟩ := stays inside
        exact ⟨value, denotes, returns ran⟩
    | uint n => exact absurd rfl signed
  · have other : ∀ n, ¬ only.Denotes .int n := fun n denotes => by
      rw [denotes.isNumber] at noNumber
      cases noNumber
    have noFloat : ∀ x, only ≠ .float x := fun x same => by
      rw [same] at noNumber
      cases noNumber
    have step : calculate world.store Standard.sub.name .sub (.int 0) only = .error _ :=
      calculate_otherKind world.store zero other noFloat
    apply returns
    rw [calculateOn, step]
    rfl

theorem several_fold {native : Standard} {op : Int → Int → Int}
    (folds : native.operation? = some op) {first : Value} {later : List Value}
    (several : native = .sub → later ≠ []) (world : World) :
    (∀ kind start numbers, first.Denotes kind start →
      List.Forall₂ (Value.Denotes · kind) later numbers →
      (native.Stays op kind start numbers → ∃ value, value.Denotes kind (numbers.foldl op start) ∧
          native.Returns (first :: later) world (.ok value)) ∧
        (¬ native.Stays op kind start numbers →
          native.Returns (first :: later) world (.error native.noResult))) ∧
      (Mixed (first :: later) → (∀ x, Value.float x ∉ first :: later) →
        ∃ error, native.Stops op world.store (first :: later) error ∧
          native.Returns (first :: later) world (.error error)) := by
  obtain ⟨number, exact', called⟩ := exists_number folds
  have returns {outcome : Except Error Value} (isNumber : first.isNumber = true)
      (ran : calculateOn world.store native.name number first later = outcome) :
      native.Returns (first :: later) world outcome := by
    intro host perform
    rw [called host perform world first later several, if_pos isNumber, ran]
  refine ⟨fun kind start numbers denotes all => ?_, fun mixed floatless => ?_⟩
  · obtain ⟨stays, leaves⟩ := calculateOn_denoted world.store exact' denotes all
    refine ⟨fun inside => ?_, fun outside => returns denotes.isNumber (leaves outside)⟩
    obtain ⟨value, total, ran⟩ := stays inside
    exact ⟨value, total, returns denotes.isNumber ran⟩
  · cases isNumber : first.isNumber with
    | false =>
        refine ⟨_, .first isNumber, fun host perform => ?_⟩
        rw [called host perform world first later several, if_neg (by simp [isNumber])]
    | true =>
        obtain ⟨kind, start, denotes⟩ := isNumber_cases isNumber fun x same =>
          floatless x (by simp [same])
        have others : ∀ x, Value.float x ∉ later := fun x member =>
          floatless x (List.mem_cons_of_mem _ member)
        rcases calculateOn_cases world.store exact' denotes others with
          ⟨numbers, _, all, _⟩ | ⟨front, numbers, item, back, error, rfl, all, stays, stops, ran⟩
        · exact absurd mixed (not_mixed (.cons denotes all))
        · exact ⟨error, .later denotes all stays stops, returns isNumber ran⟩

/-- Integers of one kind, as many as there are, come to what they come to in exact calculation as long as
every total on the way has a value of the kind and nothing is divided by zero, and to the error of the
operator otherwise. Without floats, arguments of several kinds come to the error of the leftmost step
that fails. -/
theorem arithmetic_folds {native : Standard} {op : Int → Int → Int}
    (folds : native.operation? = some op) (arguments : List Value) (world : World) :
    (∀ kind numbers start later, List.Forall₂ (Value.Denotes · kind) arguments numbers →
      native.chain numbers = start :: later →
      (native = .sub → kind = .uint → 2 ≤ arguments.length) →
      (native.Stays op kind start later → ∃ value, value.Denotes kind (later.foldl op start) ∧
          native.Returns arguments world (.ok value)) ∧
        (¬ native.Stays op kind start later →
          native.Returns arguments world (.error native.noResult))) ∧
      (Mixed arguments → (∀ x, Value.float x ∉ arguments) →
        ∃ error, native.Stops op world.store arguments error ∧
          native.Returns arguments world (.error error)) := by
  cases arguments with
  | nil =>
      refine ⟨fun kind numbers start later all chain => ?_, fun mixed => ?_⟩
      · cases all
        cases native <;> cases chain
      · rcases mixed with ⟨item, member, _⟩ | ⟨m, n, member, _⟩ <;> cases member
  | cons first rest =>
      by_cases several : native = .sub → rest ≠ []
      · obtain ⟨denoted, mixed⟩ := several_fold folds several world
        refine ⟨fun kind numbers start later all chain _ => ?_, mixed⟩
        obtain ⟨n, others, denotes, restAll, rfl⟩ := List.forall₂_cons_left_iff.mp all
        have more : native = .sub → others ≠ [] := fun isSub none => several isSub (by
          cases none
          cases restAll
          rfl)
        rw [chain_several more] at chain
        cases chain
        exact denoted kind start later denotes restAll
      · obtain ⟨rfl, single⟩ := Classical.not_imp.mp several
        obtain rfl := not_not.mp single
        cases folds
        obtain ⟨negated, refused⟩ := negation_folds first world
        refine ⟨fun kind numbers start later all chain signed => ?_, ?_⟩
        · obtain ⟨n, others, denotes, restAll, rfl⟩ := List.forall₂_cons_left_iff.mp all
          cases restAll
          cases chain
          exact negated kind n denotes fun unsigned => absurd (signed rfl unsigned) (by simp)
        · rintro (⟨item, member, noNumber⟩ | ⟨m, n, signed, unsigned⟩) _
          · obtain rfl := List.mem_singleton.mp member
            exact ⟨_, .first noNumber, refused noNumber⟩
          · rw [← List.mem_singleton.mp signed] at unsigned
            cases List.mem_singleton.mp unsigned

/-- A quotient of three numbers, rounded toward zero at each step, and a sum that meets an unsigned
integer behind two signed ones. -/
theorem arithmetic_folds_rounded :
    (∃ value : Value, value.Denotes .int 3 ∧
        Standard.div.Returns [.int (-7), .int 2, .int (-1)] default (.ok value)) ∧
      ∃ error, Standard.add.Stops (· + ·) (default : World).store [.int 1, .int 2, .uint 3] error ∧
        Standard.add.Returns [.int 1, .int 2, .uint 3] default (.error error) := by
  have stays : Standard.div.Stays Int.tdiv .int (-7) [2, -1] := by
    refine ⟨?_, fun _ => by decide⟩
    have totals : ([2, -1] : List Int).scanl Int.tdiv (-7) = [-7, -3, 3] := by decide
    rw [totals]
    simp only [List.forall_mem_cons]
    exact ⟨⟨_, .int (-7)⟩, ⟨_, .int (-3)⟩, ⟨_, .int 3⟩, fun _ member => by cases member⟩
  have denoted : List.Forall₂ (Value.Denotes · .int) [.int (-7), .int 2, .int (-1)] [-7, 2, -1] :=
    .cons (.int (-7)) (.cons (.int 2) (.cons (.int (-1)) .nil))
  have mixed : Mixed [.int 1, .int 2, .uint 3] := .inr ⟨1, 3, by simp, by simp⟩
  have divides : Standard.div.operation? = some Int.tdiv := rfl
  have adds : Standard.add.operation? = some (· + ·) := rfl
  have divided := (arithmetic_folds divides [.int (-7), .int 2, .int (-1)] default).1 .int
    [-7, 2, -1] (-7) [2, -1] denoted rfl fun isSub => by cases isSub
  have stopped := (arithmetic_folds adds [.int 1, .int 2, .uint 3] default).2 mixed (by simp)
  exact ⟨divided.1 stays, stopped⟩

end StackLisp
