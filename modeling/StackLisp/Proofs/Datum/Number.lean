import StackLisp.Proofs.Datum.Literal
import StackLisp.Proofs.Number.Finite

/-!
Numerals as data. A numeral is the number that it denotes, or it is refused because its kind has no
number that large. What is written for a number is a numeral of the same number again, and so no numeral
leaves the numbers, with one exception: decimals that are rounded to infinity are not refused, and
infinity is written as a name.
-/

namespace StackLisp

def AtomKind.isNumeric : AtomKind → Bool
  | .decimal | .hex | .octal | .binary | .uint | .float => true
  | _ => false

def AtomKind.base? : AtomKind → Option Nat
  | .hex => some 16
  | .octal => some 8
  | .binary => some 2
  | _ => none

/-- The number that a numeral of a kind stands for. Integers are exact, and there are only those that
fit in a word; decimals are rounded. -/
inductive AtomKind.Denotes : AtomKind → List Char → Datum → Prop
  | decimal {chars : List Char} {n : Int64} : n.toInt = decimalValue chars →
    Denotes .decimal chars (.int n)
  | based {kind : AtomKind} {base : Nat} {mark : Char} {digits : List Char} {n : Int64} :
    kind.base? = some base → n.toInt = numeralValue base digits →
    Denotes kind ('0' :: mark :: digits) (.int n)
  | uint {body : List Char} {n : UInt64} : n.toNat = unsignedValue body →
    Denotes .uint (body ++ ['U', 'L', 'L']) (.uint n)
  | float {chars : List Char} {d : Decimal} : Decimal.read? chars = some d →
    Denotes .float chars (.float d.toBinary64)

def Datum.WrittenAsNumeral (datum : Datum) : Prop :=
  ∃ kind : AtomKind, kind.isNumeric = true ∧ isAtomic datum.toText.toList = true ∧
    classify datum.toText.toList = some kind ∧
    ∀ table, Parse.atomDatum table kind datum.toText = (.ok datum, table)

/-- A numeral comes to the number that it denotes, for which a numeral can be written, or it is refused
because it denotes none. -/
def AtomKind.Keeps (kind : AtomKind) (numeral : String) : Prop :=
  ∀ table,
    (∃ number, kind.Denotes numeral.toList number ∧
        Parse.atomDatum table kind numeral = (.ok number, table) ∧ number.WrittenAsNumeral) ∨
      (∀ number, ¬ kind.Denotes numeral.toList number) ∧
        Parse.atomDatum table kind numeral = (.error (.numberOutOfRange numeral), table)

/-! Reading. -/

section Reading

variable {kind : AtomKind} {chars : List Char}

def AtomKind.numeral? (kind : AtomKind) (chars : List Char) : Option Datum :=
  match kind with
  | .decimal => (int64? (decimalValue chars)).map .int
  | .hex => (int64? (numeralValue 16 (chars.drop 2))).map .int
  | .octal => (int64? (numeralValue 8 (chars.drop 2))).map .int
  | .binary => (int64? (numeralValue 2 (chars.drop 2))).map .int
  | .uint => ((stripUnsignedMark? chars).bind fun body => uint64? (unsignedValue body)).map .uint
  | .float => (Decimal.read? chars).map fun d => .float d.toBinary64
  | _ => none

theorem atomDatum_numeral (numeric : kind.isNumeric = true) (table : SymbolTable) (numeral : String) :
    Parse.atomDatum table kind numeral =
      ((kind.numeral? numeral.toList).elim (.error (.numberOutOfRange numeral)) .ok, table) := by
  have based (base : Nat) : Parse.signedNumeral base false (numeral.toList.drop 2) =
      int64? (numeralValue base (numeral.toList.drop 2)) := rfl
  cases kind with
  | decimal =>
      rw [atomDatum_decimal, AtomKind.numeral?]
      cases int64? (decimalValue numeral.toList) <;> rfl
  | hex =>
      rw [Parse.atomDatum, AtomKind.numeral?, based 16]
      cases int64? (numeralValue 16 (numeral.toList.drop 2)) <;> rfl
  | octal =>
      rw [Parse.atomDatum, AtomKind.numeral?, based 8]
      cases int64? (numeralValue 8 (numeral.toList.drop 2)) <;> rfl
  | binary =>
      rw [Parse.atomDatum, AtomKind.numeral?, based 2]
      cases int64? (numeralValue 2 (numeral.toList.drop 2)) <;> rfl
  | uint =>
      have exact' : Parse.unsignedNumeral = fun body => uint64? (unsignedValue body) :=
        funext unsignedNumeral_eq
      rw [Parse.atomDatum, AtomKind.numeral?, exact']
      cases (stripUnsignedMark? numeral.toList).bind fun body => uint64? (unsignedValue body) <;> rfl
  | float =>
      rw [Parse.atomDatum, AtomKind.numeral?]
      cases Decimal.read? numeral.toList <;> rfl
  | _ => cases numeric

theorem int_denotes_iff {value : Int} {number : Datum} :
    (int64? value).map Datum.int = some number ↔ ∃ n : Int64, number = .int n ∧ n.toInt = value := by
  constructor
  · intro found
    obtain ⟨n, isWord, rfl⟩ := Option.map_eq_some_iff.mp found
    exact ⟨n, rfl, int64?_eq_some_iff.mp isWord⟩
  · rintro ⟨n, rfl, isValue⟩
    rw [int64?_eq_some_iff.mpr isValue]
    rfl

theorem based_denotes_iff {base : Nat} (isBase : kind.base? = some base) {mark : Char}
    {digits : List Char} (number : Datum) :
    kind.Denotes ('0' :: mark :: digits) number ↔
      (int64? (numeralValue base digits)).map Datum.int = some number := by
  rw [int_denotes_iff]
  constructor
  · intro denotes
    generalize same : '0' :: mark :: digits = chars at denotes
    cases denotes with
    | based isBase' isValue =>
        cases same
        cases isBase.symm.trans isBase'
        exact ⟨_, rfl, isValue⟩
    | _ => cases isBase
  · rintro ⟨n, rfl, isValue⟩
    exact .based isBase isValue

theorem decimal_denotes_iff (number : Datum) : AtomKind.decimal.Denotes chars number ↔
    (int64? (decimalValue chars)).map Datum.int = some number := by
  rw [int_denotes_iff]
  constructor
  · intro denotes
    cases denotes with
    | decimal isValue => exact ⟨_, rfl, isValue⟩
    | based isBase => cases isBase
  · rintro ⟨n, rfl, isValue⟩
    exact .decimal isValue

theorem uint_denotes_iff {body : List Char} (number : Datum) :
    AtomKind.uint.Denotes (body ++ ['U', 'L', 'L']) number ↔
      (uint64? (unsignedValue body)).map Datum.uint = some number := by
  constructor
  · intro denotes
    generalize marked : body ++ ['U', 'L', 'L'] = chars at denotes
    cases denotes with
    | uint isValue =>
        cases List.append_cancel_right marked
        have isWord : uint64? (unsignedValue body) = some _ :=
          uint64?_eq_some_iff.mpr (congrArg Int.ofNat isValue)
        rw [isWord, Option.map_some]
    | based isBase => cases isBase
  · intro found
    obtain ⟨n, isWord, rfl⟩ := Option.map_eq_some_iff.mp found
    exact .uint (Int.ofNat.inj (uint64?_eq_some_iff.mp isWord))

theorem float_denotes_iff (number : Datum) : AtomKind.float.Denotes chars number ↔
    (Decimal.read? chars).map (fun d => Datum.float d.toBinary64) = some number := by
  constructor
  · intro denotes
    cases denotes with
    | float read => rw [read, Option.map_some]
    | based isBase => cases isBase
  · intro found
    obtain ⟨d, read, rfl⟩ := Option.map_eq_some_iff.mp found
    exact .float read

theorem append_of_stripUnsignedMark? {body : List Char} (stripped : stripUnsignedMark? chars = some body) :
    chars = body ++ ['U', 'L', 'L'] := by
  unfold stripUnsignedMark? at stripped
  split at stripped
  next rest marked =>
    cases stripped
    rw [← List.reverse_reverse chars, marked]
    simp
  next => cases stripped

theorem denotes_iff_numeral? (numeric : kind.isNumeric = true) (sorted : classify chars = some kind)
    (number : Datum) : kind.Denotes chars number ↔ kind.numeral? chars = some number := by
  have shape := classify_hasShape sorted
  cases kind with
  | decimal => exact decimal_denotes_iff number
  | float => exact float_denotes_iff number
  | hex =>
      simp only [AtomKind.hasShape, isHexNumeral] at shape
      split at shape
      next digits => exact based_denotes_iff rfl number
      next => cases shape
  | octal =>
      simp only [AtomKind.hasShape, isOctalNumeral] at shape
      split at shape
      next digits => exact based_denotes_iff rfl number
      next => cases shape
  | binary =>
      simp only [AtomKind.hasShape, isBinaryNumeral] at shape
      split at shape
      next digits => exact based_denotes_iff rfl number
      next => cases shape
  | uint =>
      simp only [AtomKind.hasShape, isUnsignedNumeral] at shape
      split at shape
      next body stripped =>
        cases append_of_stripUnsignedMark? stripped
        simp only [AtomKind.numeral?, stripped, Option.bind_some]
        exact uint_denotes_iff number
      next => cases shape
  | _ => cases numeric

end Reading

/-! Writing. -/

theorem toText_of_leaf {datum : Datum} {word : String} (leaf : datum.outline = .leaf word) :
    datum.toText = word := by
  simp [Datum.toText, leaf, Outline.text, Outline.charsBefore, Outline.inTail]

theorem written_of_atom {datum : Datum} {word : String} {kind : AtomKind}
    (leaf : datum.outline = .leaf word) (numeric : kind.isNumeric = true)
    (atom : AtomWord word.toList kind)
    (read : ∀ table, Parse.atomDatum table kind word = (.ok datum, table)) :
    datum.WrittenAsNumeral := by
  rw [Datum.WrittenAsNumeral, toText_of_leaf leaf]
  generalize word.toList = chars at atom
  cases atom with
  | plain atomic sorted => exact ⟨kind, numeric, atomic, sorted, read⟩
  | _ => cases numeric

theorem written_int (n : Int64) : (Datum.int n).WrittenAsNumeral :=
  written_of_atom rfl rfl (atomWord_intWord n) fun table => atomDatum_intWord table n

theorem written_uint (n : UInt64) : (Datum.uint n).WrittenAsNumeral :=
  written_of_atom rfl rfl (atomWord_uintWord n) fun table => atomDatum_uintWord table n

theorem classify_text_of_not_finite {x : Binary64} (notFinite : ¬ x.isFinite = true) :
    classify x.text.toList = some .symbol := by
  by_cases isNaN : x.isNaN = true
  · rw [Binary64.text, if_pos isNaN]
    cbv
  · have isInfinite : x.isInfinite = true := by
      simp only [Binary64.isFinite, Binary64.isNaN, decide_eq_true_eq] at notFinite isNaN
      rw [Binary64.isInfinite, beq_iff_eq]
      omega
    simp only [Binary64.text, isNaN, isInfinite, ↓reduceIte, Bool.false_eq_true]
    cases x.negative <;> cbv

theorem written_float_iff (x : Binary64) :
    (Datum.float x).WrittenAsNumeral ↔ x.isFinite = true := by
  constructor
  · rintro ⟨kind, numeric, _, sorted, _⟩
    by_contra notFinite
    rw [toText_of_leaf rfl, classify_text_of_not_finite notFinite] at sorted
    cases sorted
    cases numeric
  · intro finite
    exact written_of_atom rfl rfl (atomWord_floatText finite) fun table =>
      atomDatum_floatText table finite

/-! The whole way. -/

theorem written_iff {kind : AtomKind} {chars : List Char} {number : Datum}
    (denotes : kind.Denotes chars number) : number.WrittenAsNumeral ↔
      ∀ d, kind = .float → Decimal.read? chars = some d → d.InReach := by
  cases denotes with
  | decimal => exact iff_of_true (written_int _) fun _ isFloat => by cases isFloat
  | based isBase =>
      refine iff_of_true (written_int _) fun _ isFloat => ?_
      cases isFloat
      cases isBase
  | uint => exact iff_of_true (written_uint _) fun _ isFloat => by cases isFloat
  | float read =>
      rw [written_float_iff, Decimal.isFinite_toBinary64]
      constructor
      · intro inReach d _ read'
        cases read.symm.trans read'
        exact inReach
      · intro inReach
        exact inReach _ rfl read

/-- A numeral that the lexer finds is kept or refused, unless it is a decimal that lies beyond the finite
numbers: such a one is neither. -/
theorem numerals_kept_iff {kind : AtomKind} {numeral : String}
    (sorted : classify numeral.toList = some kind) (numeric : kind.isNumeric = true) :
    kind.Keeps numeral ↔
      ∀ d, kind = .float → Decimal.read? numeral.toList = some d → d.InReach := by
  have reads := atomDatum_numeral numeric
  have denotes := denotes_iff_numeral? numeric sorted
  constructor
  · intro keeps
    rcases keeps default with ⟨number, isNumber, _, written⟩ | ⟨noNumber, _⟩
    · exact (written_iff isNumber).mp written
    · rintro d rfl read
      exact absurd (.float read) (noNumber _)
  · intro inReach table
    rw [reads]
    cases found : kind.numeral? numeral.toList with
    | some number =>
        have isNumber := (denotes number).mpr found
        exact .inl ⟨number, isNumber, rfl, (written_iff isNumber).mpr inReach⟩
    | none =>
        refine .inr ⟨fun number isNumber => ?_, rfl⟩
        rw [(denotes number).mp isNumber] at found
        cases found

/-- A decimal above the largest finite number that is still rounded to it. -/
theorem numerals_kept_iff_largest :
    classify "1.7976931348623158e308".toList = some .float ∧ AtomKind.float.isNumeric = true ∧
      AtomKind.float.Keeps "1.7976931348623158e308" := by
  have sorted : classify "1.7976931348623158e308".toList = some .float := by cbv
  have inReach : ∀ d, AtomKind.float = .float →
      Decimal.read? "1.7976931348623158e308".toList = some d → d.InReach := by
    intro d _ read
    have value : Decimal.read? "1.7976931348623158e308".toList =
        some ⟨false, 17976931348623158, 292⟩ := by cbv
    cases value.symm.trans read
    decide +kernel
  exact ⟨sorted, rfl, (numerals_kept_iff sorted rfl).mpr inReach⟩

/-- A numeral becomes infinity, which is written as a name. -/
theorem infinity_read : classify "1e999".toList = some .float ∧
    (∀ table, Parse.atomDatum table .float "1e999" = (.ok (.float ⟨9218868437227405312⟩), table)) ∧
    (Datum.float ⟨9218868437227405312⟩).toText = "inf" ∧ classify "inf".toList = some .symbol ∧
    ¬ AtomKind.float.Keeps "1e999" := by
  have read : Decimal.read? "1e999".toList = some ⟨false, 1, 999⟩ := by cbv
  have value : (⟨false, 1, 999⟩ : Decimal).toBinary64 = ⟨9218868437227405312⟩ := by decide +kernel
  refine ⟨by cbv, fun table => ?_, by cbv, by cbv, fun keeps => ?_⟩
  · rw [atomDatum_numeral rfl, AtomKind.numeral?, read, Option.map_some, value]
    rfl
  · rcases keeps default with ⟨number, isNumber, _, written⟩ | ⟨noNumber, _⟩
    · exact absurd ((written_iff isNumber).mp written _ rfl read) (by decide +kernel)
    · exact noNumber _ (.float read)

end StackLisp
