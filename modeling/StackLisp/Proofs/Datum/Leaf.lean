import StackLisp.Outline
import StackLisp.Proofs.Number.Word
import StackLisp.Proofs.Number.ReadBack
import StackLisp.Proofs.Datum.Legible

/-!
The words of data without parts. Each word spells one token, and the datum of that token is the
datum that the word was written for; no name enters the symbol table.
-/

namespace StackLisp

/-! Characters of numerals. -/

def numeralChars : List Char :=
  ['0', '1', '2', '3', '4', '5', '6', '7', '8', '9', 'a', 'b', 'c', 'd', 'e', 'f',
    'A', 'B', 'C', 'D', 'E', 'F', '-', '.']

theorem mem_numeralChars_of_digit {c : Char} (digit : isDigitOf 16 c = true) :
    c ∈ numeralChars := by
  have codes : (48 ≤ c.toNat ∧ c.toNat ≤ 57) ∨ (97 ≤ c.toNat ∧ c.toNat ≤ 102) ∨
      (65 ≤ c.toNat ∧ c.toNat ≤ 70) := by
    unfold isDigitOf digitValue? at digit
    by_cases decimal : '0' ≤ c ∧ c ≤ '9'
    · exact .inl decimal
    · by_cases lower : 'a' ≤ c ∧ c ≤ 'f'
      · exact .inr (.inl lower)
      · by_cases upper : 'A' ≤ c ∧ c ≤ 'F'
        · exact .inr (.inr upper)
        · simp [decimal, lower, upper] at digit
  have table : ∀ code < 103, (48 ≤ code ∧ code ≤ 57) ∨ (97 ≤ code ∧ code ≤ 102) ∨
      (65 ≤ code ∧ code ≤ 70) → Char.ofNat code ∈ numeralChars := by decide
  rw [← Char.ofNat_toNat c]
  exact table c.toNat (by omega) codes

theorem isDigitOf_mono {c : Char} (digit : isDecimalDigit c = true) : isDigitOf 16 c = true := by
  unfold isDecimalDigit isDigitOf at digit
  unfold isDigitOf
  cases value : digitValue? c with
  | none => simp [value] at digit
  | some n =>
      simp only [value, decide_eq_true_eq] at digit ⊢
      omega

theorem mem_numeralChars_of_floatChar {c : Char} (inFloat : isFloatChar c = true) :
    c ∈ numeralChars := by
  have either : isDecimalDigit c = true ∨ c = '-' ∨ c = '.' ∨ c = 'e' := by
    simpa [isFloatChar, or_assoc] using inFloat
  rcases either with digit | rfl | rfl | rfl
  · exact mem_numeralChars_of_digit (isDigitOf_mono digit)
  · decide
  · decide
  · decide

theorem isAtomChar_of_mem {c : Char} (member : c ∈ numeralChars) : isAtomChar c = true := by
  have all : numeralChars.all isAtomChar = true := by decide
  exact List.all_eq_true.mp all c member

theorem opensAtom_of_mem {first : Char} (member : first ∈ numeralChars) (later : List Char) :
    opensAtom (first :: later) = true := by
  have noMark : (numeralChars.all fun first =>
      first ≠ '/' ∧ first ≠ '%' ∧ first ≠ '~' ∧ first ≠ '\\' ∧ first ≠ '^') = true := by decide
  obtain ⟨noSlash, noPercent, noTilde, noBackslash, noCaret⟩ :=
    of_decide_eq_true (List.all_eq_true.mp noMark first member)
  unfold opensAtom
  split
  · contradiction
  · simp_all
  · simp_all

theorem isAtomic_of_numeralChars {word : List Char} (chars : ∀ c ∈ word, c ∈ numeralChars)
    (nonempty : word ≠ []) : isAtomic word = true := by
  have inAtom : word.all isAtomChar = true :=
    List.all_eq_true.mpr fun c member => isAtomChar_of_mem (chars c member)
  rw [isAtomic, inAtom, Bool.and_true]
  cases word with
  | nil => exact absurd rfl nonempty
  | cons first later => exact opensAtom_of_mem (chars first (by simp)) later

/-! The kinds of numerals. -/

theorem isUnsignedNumeral_of_no_mark {word : List Char} (unmarked : 'L' ∉ word) :
    isUnsignedNumeral word = false := by
  have none : stripUnsignedMark? word = none := by
    unfold stripUnsignedMark?
    split
    next body marked =>
      refine absurd ?_ unmarked
      rw [← List.mem_reverse, marked]
      exact List.mem_cons_self
    · rfl
  rw [isUnsignedNumeral, none]

theorem classify_of_floatChars {word : List Char} (chars : word.all isFloatChar = true) :
    (isDecimalNumeral word = true → classify word = some .decimal) ∧
      (isDecimalNumeral word = false → isFloatNumeral word = true →
        classify word = some .float) := by
  have outside {c : Char} (letter : isFloatChar c = false) : c ∉ word := by
    intro member
    rw [List.all_eq_true.mp chars c member] at letter
    cases letter
  have noBool : ¬(word = ['t', 'r', 'u', 'e'] ∨ word = ['f', 'a', 'l', 's', 'e']) := by
    rintro (rfl | rfl)
    · exact outside (c := 't') (by decide) (by decide)
    · exact outside (c := 'f') (by decide) (by decide)
  have noUnsigned := isUnsignedNumeral_of_no_mark (outside (c := 'L') (by decide))
  have noHex : isHexNumeral word = false := by
    unfold isHexNumeral
    split
    · exact absurd (by simp) (outside (c := 'x') (by decide))
    · rfl
  have noOctal : isOctalNumeral word = false := by
    unfold isOctalNumeral
    split
    · exact absurd (by simp) (outside (c := 'o') (by decide))
    · rfl
  have noBinary : isBinaryNumeral word = false := by
    unfold isBinaryNumeral
    split
    · exact absurd (by simp) (outside (c := 'b') (by decide))
    · rfl
  constructor
  · intro decimal
    simp only [classify, noBool, noUnsigned, noHex, noOctal, noBinary, decimal, ↓reduceIte]
    rfl
  · intro noDecimal float
    simp only [classify, noBool, noUnsigned, noHex, noOctal, noBinary, noDecimal, float,
      ↓reduceIte]
    rfl

theorem isAtomic_of_floatChars {word : List Char} (chars : word.all isFloatChar = true)
    (nonempty : word ≠ []) : isAtomic word = true :=
  isAtomic_of_numeralChars
    (fun c member => mem_numeralChars_of_floatChar (List.all_eq_true.mp chars c member)) nonempty

/-! Parses that wait for a datum. -/

namespace Parse

structure Awaits (parse : Parse) : Prop where
  outside : parse.inComment = false
  reads : parse.keepsRefused = false

def startsDatum : TokenKind → Bool
  | .atom _ | .keyword | .text | .openParen | .openSquare => true
  | _ => false

theorem step_of_startsDatum {parse : Parse} {table : SymbolTable} {token : Token}
    (awaits : parse.Awaits) (starts : startsDatum token.kind = true) :
    parse.step table token = parse.begin table token := by
  have unskipped : parse.skips? token = none := by
    unfold startsDatum at starts
    simp only [skips?, awaits.outside]
    split at starts <;> simp_all
  have noEnd : token.kind ≠ .closeParen ∧ token.kind ≠ .backslash ∧ token.kind ≠ .closeSquare ∧
      token.kind ≠ .closeCurly := by
    refine ⟨?_, ?_, ?_, ?_⟩ <;>
      · intro same
        rw [same] at starts
        cases starts
  have noClosing : ∀ items last outer, parse.forms ≠ .closing items last :: outer := by
    intro items last outer forms
    have kept := awaits.reads
    simp [keepsRefused, forms] at kept
  simp only [step, unskipped, meet, noEnd, ↓reduceIte]
  split
  · rfl
  next items last outer forms => exact absurd forms (noClosing items last outer)
  · rfl
  · rfl
  · rfl

/-- A word for a datum: it spells a token that is this datum, wherever a datum may stand. -/
def Spelled (table : SymbolTable) (word : String) (datum : Datum) : Prop :=
  ∃ kind text, Scan.Spells word.toList kind text ∧
    ∀ (parse : Parse) (line : Nat), parse.Awaits →
      parse.step table ⟨kind, text, line⟩ = parse.complete table datum parse.forms

theorem spelled_of_atom (kind : AtomKind) {table : SymbolTable} {word : String} {datum : Datum}
    (spelled : AtomWord word.toList kind)
    (read : atomDatum table kind word = (.ok datum, table)) : Spelled table word datum := by
  refine ⟨.atom kind, word, ?_, ?_⟩
  · simpa using Scan.spells_atom spelled
  · intro parse line awaits
    rw [step_of_startsDatum awaits rfl]
    simp only [begin, read]

end Parse

open Parse

/-! Words of whole numbers. -/

theorem numeral_ne_minus (value : Nat) (digits : List Char) :
    numeral 10 value ≠ '-' :: digits := by
  intro same
  have all := numeral_all_digits 10 (by decide) (by decide) value
  rw [same, List.all_cons, Bool.and_eq_true] at all
  exact absurd all.1 (by decide)

theorem intWord_chars (n : Int64) :
    (intWord n).toList = if n.toInt < 0 then '-' :: numeral 10 n.toInt.natAbs
      else numeral 10 n.toInt.natAbs := by
  unfold intWord signedText
  split
  · exact String.toList_ofList
  · exact String.toList_ofList

theorem signedNumeral_numeral (n : Int64) (negative : Bool)
    (sign : negative = decide (n.toInt < 0)) :
    signedNumeral 10 negative (numeral 10 n.toInt.natAbs) = some n := by
  have value := numeralValue_numeral 10 (by decide) (by decide) n.toInt.natAbs
  have exact' : (if negative then -(Int.ofNat n.toInt.natAbs) else Int.ofNat n.toInt.natAbs) =
      n.toInt := by
    simp only [sign, decide_eq_true_eq, Int.ofNat_eq_natCast]
    split <;> omega
  simp only [signedNumeral, value, exact', int64?_toInt]

theorem atomWord_intWord (n : Int64) : AtomWord (intWord n).toList .decimal := by
  have digits := numeral_all_digits 10 (by decide) (by decide) n.toInt.natAbs
  have numeral' := isNumeral_numeral 10 (by decide) (by decide) n.toInt.natAbs
  have chars := intWord_chars n
  have floatChars : (intWord n).toList.all isFloatChar = true := by
    rw [chars]
    split
    · rw [List.all_cons, all_isFloatChar_of_digits digits]
      decide
    · exact all_isFloatChar_of_digits digits
  have nonempty : (intWord n).toList ≠ [] := by
    rw [chars]
    split
    · exact List.cons_ne_nil _ _
    · exact numeral_ne_nil 10 (by decide) _
  refine .plain (isAtomic_of_floatChars floatChars nonempty)
    ((classify_of_floatChars floatChars).1 ?_)
  rw [chars]
  unfold isDecimalNumeral
  split
  next rest signed =>
    split at signed
    · cases signed
      exact numeral'
    · exact absurd signed (numeral_ne_minus _ _)
  next unsigned =>
    split
    next negative => exact absurd (if_pos negative) (unsigned _)
    · exact numeral'

theorem atomDatum_intWord (table : SymbolTable) (n : Int64) :
    atomDatum table .decimal (intWord n) = (.ok (.int n), table) := by
  have chars := intWord_chars n
  unfold atomDatum
  dsimp only
  rw [chars]
  by_cases negative : n.toInt < 0
  · have read := signedNumeral_numeral n true (by simpa using negative)
    simp only [negative, ↓reduceIte, read, Option.map_some]
  · have read := signedNumeral_numeral n false (by simpa using negative)
    simp only [negative, ↓reduceIte]
    split
    next rest signed => exact absurd signed (numeral_ne_minus _ _)
    · simp only [read, Option.map_some]

theorem spelled_int (table : SymbolTable) (n : Int64) :
    Spelled table (intWord n) (.int n) :=
  spelled_of_atom .decimal (atomWord_intWord n) (atomDatum_intWord table n)

theorem unsignedNumeral_numeral (n : UInt64) :
    unsignedNumeral (numeral 10 n.toNat) = some n := by
  have digits := numeral_all_digits 10 (by decide) (by decide) n.toNat
  have value := numeralValue_numeral 10 (by decide) (by decide) n.toNat
  unfold unsignedNumeral
  split
  next rest hex =>
    rw [hex] at digits
    exact absurd (List.all_eq_true.mp digits 'x' (by simp)) (by decide)
  next rest octal =>
    rw [octal] at digits
    exact absurd (List.all_eq_true.mp digits 'o' (by simp)) (by decide)
  · rw [value, uint64?_toNat]

theorem uintWord_chars (n : UInt64) : (uintWord n).toList = numeral 10 n.toNat ++ ['U', 'L', 'L'] := by
  simp [uintWord, decimalText]

theorem stripUnsignedMark?_append (body : List Char) :
    stripUnsignedMark? (body ++ ['U', 'L', 'L']) = some body := by
  simp [stripUnsignedMark?]

theorem atomWord_uintWord (n : UInt64) : AtomWord (uintWord n).toList .uint := by
  have numeral' := isNumeral_numeral 10 (by decide) (by decide) n.toNat
  have digits := numeral_all_digits 10 (by decide) (by decide) n.toNat
  obtain ⟨first, rest, split', digit⟩ := numeral_cons n.toNat
  rw [uintWord_chars]
  refine .plain ?_ ?_
  · have inAtom : (numeral 10 n.toNat).all isAtomChar = true := by
      rw [List.all_eq_true] at digits ⊢
      exact fun c member => isAtomChar_of_mem
        (mem_numeralChars_of_digit (isDigitOf_mono (digits c member)))
    have opens : opensAtom (numeral 10 n.toNat ++ ['U', 'L', 'L']) = true := by
      rw [split', List.cons_append]
      exact opensAtom_of_mem (mem_numeralChars_of_digit (isDigitOf_mono digit)) _
    rw [isAtomic, opens, List.all_append, inAtom]
    decide
  · have noBool : ¬(numeral 10 n.toNat ++ ['U', 'L', 'L'] = ['t', 'r', 'u', 'e'] ∨
        numeral 10 n.toNat ++ ['U', 'L', 'L'] = ['f', 'a', 'l', 's', 'e']) := by
      rw [split']
      rintro (same | same)
      · obtain ⟨rfl, _⟩ := List.cons.inj same
        exact absurd digit (by decide)
      · obtain ⟨rfl, _⟩ := List.cons.inj same
        exact absurd digit (by decide)
    rw [classify, if_neg noBool, isUnsignedNumeral, stripUnsignedMark?_append]
    simp only [numeral', Bool.or_true, ↓reduceIte]

theorem atomDatum_uintWord (table : SymbolTable) (n : UInt64) :
    atomDatum table .uint (uintWord n) = (.ok (.uint n), table) := by
  unfold atomDatum
  dsimp only
  rw [uintWord_chars, stripUnsignedMark?_append]
  simp only [Option.bind_some, unsignedNumeral_numeral, Option.map_some]

theorem spelled_uint (table : SymbolTable) (n : UInt64) :
    Spelled table (uintWord n) (.uint n) :=
  spelled_of_atom .uint (atomWord_uintWord n) (atomDatum_uintWord table n)

/-! Words of other atoms. -/

theorem isNumeral_of_mark {text : List Char} (mark : '.' ∈ text ∨ 'e' ∈ text) :
    isNumeral 10 text = false := by
  rcases mark with point | exponent
  · have all : text.all (isDigitOf 10) = false :=
      List.all_eq_false.mpr ⟨'.', point, by decide⟩
    simp [isNumeral, all]
  · have all : text.all (isDigitOf 10) = false :=
      List.all_eq_false.mpr ⟨'e', exponent, by decide⟩
    simp [isNumeral, all]

theorem atomWord_floatText {x : Binary64} (finite : x.isFinite = true) :
    AtomWord x.text.toList .float := by
  obtain ⟨chars, mark⟩ := Binary64.text_chars finite
  obtain ⟨d, read, _⟩ := Binary64.read?_text finite
  have noDecimal : isDecimalNumeral x.text.toList = false := by
    unfold isDecimalNumeral
    split
    next rest signed =>
      rw [signed] at mark
      exact isNumeral_of_mark (by simpa using mark)
    · exact isNumeral_of_mark mark
  have nonempty : x.text.toList ≠ [] := by
    intro none
    rw [none] at mark
    simp at mark
  refine .plain (isAtomic_of_floatChars chars nonempty)
    ((classify_of_floatChars chars).2 noDecimal ?_)
  rw [isFloatNumeral, read]
  rfl

theorem atomDatum_floatText (table : SymbolTable) {x : Binary64} (finite : x.isFinite = true) :
    atomDatum table .float x.text = (.ok (.float x), table) := by
  obtain ⟨d, read, exact'⟩ := Binary64.read?_text finite
  simp only [atomDatum, read, Option.map_some, exact']

theorem spelled_float (table : SymbolTable) {x : Binary64} (finite : x.isFinite = true) :
    Spelled table x.text (.float x) :=
  spelled_of_atom .float (atomWord_floatText finite) (atomDatum_floatText table finite)

theorem spelled_bool (table : SymbolTable) (b : Bool) :
    Spelled table (boolWord b) (.bool b) := by
  apply spelled_of_atom .bool
  · cases b with
    | true => exact .plain (by cbv) (by cbv)
    | false => exact .plain (by cbv) (by cbv)
  · cases b with
    | true => rfl
    | false => rfl

theorem spelled_nil (table : SymbolTable) : Spelled table "nil" .nil :=
  spelled_of_atom .symbol (.plain (by cbv) (by cbv)) rfl

theorem spelled_text (table : SymbolTable) (s : String) :
    Spelled table (quotedText s) (.text s) := by
  refine ⟨.text, s, Scan.spells_text s, ?_⟩
  intro parse line awaits
  rw [step_of_startsDatum awaits rfl]
  rfl

/-! Words of characters. -/

theorem spelled_of_charWord {table : SymbolTable} {word : String} {c : Char}
    (atomic : isAtomic ('#' :: word.toList) = true)
    (sorted : classify ('#' :: word.toList) = some .char)
    (read : charOfLiteral? word = some c) : Spelled table ("#" ++ word) (.char c) := by
  have chars : ("#" ++ word).toList = '#' :: word.toList := by simp
  apply spelled_of_atom .char
  · rw [chars]
    exact .plain atomic sorted
  · simp only [atomDatum, chars, List.drop_succ_cons, List.drop_zero, String.ofList_toList, read]

theorem charNames_read : ∀ entry ∈ charNames, isAtomic ('#' :: entry.1.toList) = true ∧
    classify ('#' :: entry.1.toList) = some .char ∧ charOfLiteral? entry.1 = some entry.2 := by
  simp only [charNames, List.forall_mem_cons]
  refine ⟨?_, ?_, ?_, ?_, ?_, ?_, ?_, ?_, ?_, ?_, ?_, ?_, ?_, ?_, ?_, by simp⟩ <;>
    exact ⟨by cbv, by cbv, by cbv⟩

theorem classify_hash {rest : List Char} (unsigned : isUnsignedNumeral ('#' :: rest) = false)
    (literal : isCharLiteral ('#' :: rest) = true) : classify ('#' :: rest) = some .char := by
  have noDigit : isDigitOf 10 '#' = false := by decide
  have noDecimal : isDecimalNumeral ('#' :: rest) = false := by
    simp [isDecimalNumeral, isNumeral, noDigit]
  have noFloat : isFloatNumeral ('#' :: rest) = false := by
    have noDigit' : isDecimalDigit '#' = false := noDigit
    simp [isFloatNumeral, Decimal.read?, Decimal.readUnsigned?, Decimal.spanDigits, noDigit']
  simp [classify, unsigned, isHexNumeral, isOctalNumeral, isBinaryNumeral, noDecimal, noFloat,
    literal]

theorem codePointText_chars {code : Nat} (bound : code < 16 ^ 4) :
    isNumeral 16 (codePointText code).toList = true ∧
      (codePointText code).toList.length ≤ 6 ∧
      numeralValue 16 (codePointText code).toList = code := by
  have digits := isNumeral_numeral 16 (by decide) (by decide) code
  have value := numeralValue_numeral 16 (by decide) (by decide) code
  have size : (numeral 16 code).length ≤ 4 := by
    by_cases zero : code = 0
    · subst zero
      decide
    · have low := (numeral_length_bounds 16 (by decide) (Nat.pos_of_ne_zero zero)).1
      by_contra more
      have high : 16 ^ 4 ≤ 16 ^ ((numeral 16 code).length - 1) :=
        Nat.pow_le_pow_right (by decide) (by omega)
      omega
  simp only [isNumeral, Bool.and_eq_true, Bool.not_eq_true', List.isEmpty_eq_false_iff] at digits
  have zero : isDigitOf 16 '0' = true := by decide
  simp only [codePointText, String.toList_ofList]
  refine ⟨?_, ?_, ?_⟩
  · simp [isNumeral, digits, zero]
  · simp only [List.length_append, List.length_replicate]
    omega
  · simp [numeralValue_append, numeralValue_replicate_zero, value]

theorem charNames_find?_eq_none {word : String}
    (other : ∀ entry ∈ charNames, entry.1.toList ≠ word.toList) :
    charNames.find? (fun entry => entry.1 == word) = none := by
  rw [List.find?_eq_none]
  intro entry member same
  exact other entry member (congrArg String.toList (by simpa using same))

theorem spelled_codePoint (table : SymbolTable) {c : Char} (bound : c.toNat < 16 ^ 4) :
    Spelled table ("#" ++ ("u+" ++ codePointText c.toNat)) (.char c) := by
  obtain ⟨digits, size, value⟩ := codePointText_chars bound
  have chars : ("u+" ++ codePointText c.toNat).toList =
      'u' :: '+' :: (codePointText c.toNat).toList := by simp
  generalize codePointText c.toNat = text at digits size value chars ⊢
  have allDigits : ∀ c ∈ text.toList, isDigitOf 16 c = true := by
    rw [isNumeral, Bool.and_eq_true, List.all_eq_true] at digits
    exact digits.2
  apply spelled_of_charWord
  · have inAtom : text.toList.all isAtomChar = true := by
      rw [List.all_eq_true]
      exact fun c member => isAtomChar_of_mem (mem_numeralChars_of_digit (allDigits c member))
    rw [chars, isAtomic, List.all_cons, List.all_cons, List.all_cons, inAtom]
    rfl
  · rw [chars]
    apply classify_hash
    · apply isUnsignedNumeral_of_no_mark
      intro marked
      have inDigits : 'L' ∈ text.toList := by simpa using marked
      exact absurd (allDigits 'L' inDigits) (by decide)
    · simp [isCharLiteral, digits, size]
  · have unnamed : charNames.find? (fun entry => entry.1 == "u+" ++ text) = none := by
      apply charNames_find?_eq_none
      have heads : ∀ entry ∈ charNames, entry.1.toList.head? ≠ some 'u' := by
        simp only [charNames, List.forall_mem_cons]
        decide
      intro entry member same
      exact heads entry member (by rw [same, chars]; rfl)
    have point : codePoint? text.toList = some c := by
      unfold codePoint?
      split
      next rest signed =>
        exact absurd (allDigits '+' (by rw [signed]; simp)) (by decide)
      · rw [readNumeral?, if_pos digits, value, Option.bind_some, scalar?,
          if_pos (show c.toNat.isValidChar from c.valid), Char.ofNat_toNat]
    unfold charOfLiteral?
    rw [unnamed, chars]
    simp [point]

theorem spelled_char (table : SymbolTable) (c : Char) :
    Spelled table (charText c) (.char c) := by
  unfold charText charName?
  cases named : charNames.find? (fun entry => entry.2 == c) with
  | some entry =>
      have member := List.mem_of_find?_eq_some named
      have same : entry.2 = c := by simpa using List.find?_some named
      obtain ⟨atomic, sorted, read⟩ := charNames_read entry member
      rw [same] at read
      exact spelled_of_charWord atomic sorted read
  | none =>
      have unnamed : ∀ entry ∈ charNames, c ≠ entry.2 := by
        intro entry member same
        exact absurd (List.find?_eq_none.mp named entry member) (by simp [same])
      dsimp only
      by_cases hidden : (isBlank c || isControl c) = true
      · have bound : c.toNat < 16 ^ 4 := by
          simp [isBlank, isControl] at hidden
          omega
        rw [if_pos hidden]
        exact spelled_codePoint table bound
      · rw [if_neg hidden]
        have shown : isAtomChar c = true ∧ c ≠ '\n' := by
          have unpunctuated : Scan.punctuation? c = none := by
            unfold Scan.punctuation?
            split <;> simp_all [charNames]
          simp only [charNames, List.forall_mem_cons] at unnamed
          simp_all [isAtomChar]
        have word : "#" ++ String.ofList [c] = String.ofList ['#', c] := by
          apply String.toList_injective
          simp
        dsimp only
        rw [← word]
        apply spelled_of_charWord
        · simp [isAtomic, opensAtom, shown]
          decide
        · rw [String.toList_ofList]
          apply classify_hash
          · simp [isUnsignedNumeral, stripUnsignedMark?]
          · simp [isCharLiteral, shown]
        · unfold charOfLiteral?
          rw [charNames_find?_eq_none]
          · simp
          · have sizes : ∀ entry ∈ charNames, entry.1.toList.length ≠ 1 := by
              simp only [charNames, List.forall_mem_cons]
              decide
            intro entry member same
            exact sizes entry member (by rw [same]; simp)

theorem spelled_symbol {table : SymbolTable} {s : Symbol} (legible : s.Legible table) :
    Spelled table s.text (.symbol s) := by
  obtain ⟨known, spelled⟩ := legible
  have met := SymbolTable.symbol_of_known known
  cases s with
  | mk name id colon =>
      cases colon with
      | true =>
          refine ⟨.keyword, name, ?_, ?_⟩
          · have keyword := Scan.spells_keyword spelled
            simpa [Symbol.text] using keyword
          · intro parse line awaits
            rw [step_of_startsDatum awaits rfl]
            simp only [begin]
            rw [met]
            rfl
      | false =>
          simp only [Bool.false_eq_true, ↓reduceIte] at spelled
          cases spelled with
          | symbol word notNil =>
              apply spelled_of_atom _ word
              simp only [atomDatum]
              rw [met]
              simp [notNil]
          | path word =>
              apply spelled_of_atom _ word
              simp only [atomDatum]
              rw [met]
          | sigil word =>
              apply spelled_of_atom _ word
              simp only [atomDatum]
              rw [met]

end StackLisp
