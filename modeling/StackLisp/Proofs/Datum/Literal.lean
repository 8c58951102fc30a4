import StackLisp.Proofs.Datum.Leaf
import StackLisp.Proofs.Token.Found

/-!
The literals that are found in a text. All of them have a value, but for integers that do not fit in
their word and code points that are none of a character.
-/

namespace StackLisp

def unsignedValue : List Char → Nat
  | '0' :: 'x' :: digits => numeralValue 16 digits
  | '0' :: 'o' :: digits => numeralValue 8 digits
  | digits => numeralValue 10 digits

def decimalValue : List Char → Int
  | '-' :: digits => -(numeralValue 10 digits : Int)
  | digits => numeralValue 10 digits

def Token.InRange (token : Token) : Prop :=
  let chars := token.text.toList
  match token.kind with
  | .atom .decimal =>
    -9223372036854775808 ≤ decimalValue chars ∧ decimalValue chars ≤ 9223372036854775807
  | .atom .hex => numeralValue 16 (chars.drop 2) ≤ 9223372036854775807
  | .atom .octal => numeralValue 8 (chars.drop 2) ≤ 9223372036854775807
  | .atom .binary => numeralValue 2 (chars.drop 2) ≤ 9223372036854775807
  | .atom .uint =>
    ∀ body, stripUnsignedMark? chars = some body → unsignedValue body ≤ 18446744073709551615
  | .atom .char =>
    ∀ digits, chars = '#' :: 'u' :: '+' :: digits → (numeralValue 16 digits).isValidChar
  | _ => True

def Token.Readable (token : Token) : Prop :=
  ∀ kind, token.kind = .atom kind → ∀ table,
    ∃ datum after, Parse.atomDatum table kind token.text = (.ok datum, after)

theorem AtomWord.sorted {word : List Char} {kind : AtomKind} (spelled : AtomWord word kind)
    (noSymbol : kind ≠ .symbol) : classify word = some kind := by
  cases spelled with
  | plain _ sorted => exact sorted
  | _ => exact absurd rfl noSymbol

theorem shape_cases {p : Prop} [Decidable p] {shape kind : AtomKind} {later : Option AtomKind}
    (sorted : (if p then some shape else later) = some kind) :
    (p ∧ shape = kind) ∨ later = some kind := by
  split at sorted
  next holds => exact .inl ⟨holds, Option.some.inj sorted⟩
  next => exact .inr sorted

def AtomKind.hasShape : AtomKind → List Char → Bool
  | .bool, word => decide (word = ['t', 'r', 'u', 'e'] ∨ word = ['f', 'a', 'l', 's', 'e'])
  | .uint, word => isUnsignedNumeral word
  | .hex, word => isHexNumeral word
  | .octal, word => isOctalNumeral word
  | .binary, word => isBinaryNumeral word
  | .decimal, word => isDecimalNumeral word
  | .float, word => isFloatNumeral word
  | .char, word => isCharLiteral word
  | .path, word => isPathAtom word
  | .sigil, word => isSigilAtom word
  | .symbol, word => isSymbolAtom word

theorem classify_hasShape {word : List Char} {kind : AtomKind} (sorted : classify word = some kind) :
    kind.hasShape word = true := by
  rw [classify] at sorted
  iterate 11
    rcases shape_cases sorted with ⟨test, rfl⟩ | sorted
    · simpa [AtomKind.hasShape] using test
  cases sorted

theorem int64?_of_le {n : Int} (low : -9223372036854775808 ≤ n) (high : n ≤ 9223372036854775807) :
    int64? n = some (Int64.ofInt n) := by
  rw [int64?, if_pos ⟨low, high⟩]

theorem uint64?_of_le {n : Nat} (high : n ≤ 18446744073709551615) :
    uint64? (Int.ofNat n) = some (UInt64.ofNat n) := by
  rw [uint64?, if_pos ⟨Int.natCast_nonneg n, Int.ofNat_le.mpr high⟩]
  rfl

theorem signedNumeral_of_le {base : Nat} {digits : List Char}
    (high : numeralValue base digits ≤ 9223372036854775807) :
    ∃ n, Parse.signedNumeral base false digits = some n := by
  refine ⟨_, int64?_of_le (n := numeralValue base digits) ?_ ?_⟩ <;> omega

theorem unsignedNumeral_eq (body : List Char) :
    Parse.unsignedNumeral body = uint64? (Int.ofNat (unsignedValue body)) := by
  unfold Parse.unsignedNumeral
  split
  · rfl
  · rfl
  next noHex noOctal => rw [unsignedValue.eq_3 body noHex noOctal]

theorem atomDatum_decimal (table : SymbolTable) (text : String) :
    Parse.atomDatum table .decimal text =
      match int64? (decimalValue text.toList) with
      | some n => (.ok (.int n), table)
      | none => (.error (.numberOutOfRange text), table) := by
  unfold Parse.atomDatum
  generalize text.toList = chars
  dsimp only
  split
  next digits =>
    have read : Parse.signedNumeral 10 true digits = int64? (decimalValue ('-' :: digits)) := rfl
    rw [read]
    cases int64? (decimalValue ('-' :: digits)) <;> rfl
  next noMinus =>
    have read : Parse.signedNumeral 10 false chars = int64? (decimalValue chars) := by
      rw [decimalValue.eq_2 chars noMinus]
      rfl
    rw [read]
    cases int64? (decimalValue chars) <;> rfl

theorem codePoint?_of_isNumeral {digits : List Char} (numeral : isNumeral 16 digits = true)
    (valid : (numeralValue 16 digits).isValidChar) :
    codePoint? digits = some (Char.ofNat (numeralValue 16 digits)) := by
  have plain : codePoint? digits = (readNumeral? 16 digits).bind scalar? := by
    unfold codePoint?
    split
    next rest =>
      have plus : isDigitOf 16 '+' = false := by decide
      simp [isNumeral, plus] at numeral
    next => rfl
  simp [plain, readNumeral?, numeral, scalar?, valid]

theorem charOfLiteral?_of_isCharLiteral {chars : List Char} (isChar : isCharLiteral chars = true)
    (valid : ∀ digits, chars = '#' :: 'u' :: '+' :: digits →
      (numeralValue 16 digits).isValidChar) :
    ∃ c, charOfLiteral? (String.ofList (chars.drop 1)) = some c := by
  unfold charOfLiteral?
  cases named : charNames.find? (fun entry => entry.1 == String.ofList (chars.drop 1)) with
  | some entry => exact ⟨entry.2, rfl⟩
  | none =>
      dsimp only
      rw [String.toList_ofList]
      unfold isCharLiteral at isChar
      split at isChar
      next c => exact ⟨c, rfl⟩
      next rest noSingle =>
        have unnamed : charNames.any (fun entry => entry.1.toList == rest) = false := by
          rw [List.any_eq_false]
          intro entry member same
          apply List.find?_eq_none.mp named entry member
          rw [← eq_of_beq same]
          simp
        rw [unnamed, Bool.false_or] at isChar
        split at isChar
        next digits =>
          rw [Bool.and_eq_true] at isChar
          exact ⟨_, codePoint?_of_isNumeral isChar.1 (valid digits rfl)⟩
        next => cases isChar
      next => cases isChar
      next => cases isChar

theorem Token.Sound.readable {token : Token} (sound : token.Sound) (inRange : token.InRange) :
    token.Readable := by
  intro kind same table
  simp only [Token.Sound, same] at sound
  simp only [InRange, same] at inRange
  cases kind with
  | symbol =>
      unfold Parse.atomDatum
      dsimp only
      split <;> exact ⟨_, _, rfl⟩
  | path => exact ⟨_, _, rfl⟩
  | sigil => exact ⟨_, _, rfl⟩
  | bool => exact ⟨_, _, rfl⟩
  | decimal =>
      rw [atomDatum_decimal, int64?_of_le inRange.1 inRange.2]
      exact ⟨_, _, rfl⟩
  | hex =>
      obtain ⟨n, read⟩ := signedNumeral_of_le inRange
      exact ⟨.int n, table, by simp [Parse.atomDatum, read]⟩
  | octal =>
      obtain ⟨n, read⟩ := signedNumeral_of_le inRange
      exact ⟨.int n, table, by simp [Parse.atomDatum, read]⟩
  | binary =>
      obtain ⟨n, read⟩ := signedNumeral_of_le inRange
      exact ⟨.int n, table, by simp [Parse.atomDatum, read]⟩
  | float =>
      have isFloat : isFloatNumeral _ = true := classify_hasShape (sound.sorted (by simp))
      obtain ⟨d, read⟩ := Option.isSome_iff_exists.mp isFloat
      exact ⟨.float d.toBinary64, table, by simp [Parse.atomDatum, read]⟩
  | uint =>
      have isUnsigned : isUnsignedNumeral _ = true := classify_hasShape (sound.sorted (by simp))
      unfold isUnsignedNumeral at isUnsigned
      split at isUnsigned
      next body marked =>
        have read := (unsignedNumeral_eq body).trans (uint64?_of_le (inRange body marked))
        refine ⟨.uint (.ofNat (unsignedValue body)), table, ?_⟩
        simp [Parse.atomDatum, marked, read]
      next => cases isUnsigned
  | char =>
      have isChar : isCharLiteral _ = true := classify_hasShape (sound.sorted (by simp))
      obtain ⟨c, read⟩ := charOfLiteral?_of_isCharLiteral isChar inRange
      refine ⟨.char c, table, ?_⟩
      unfold Parse.atomDatum
      simp only [read]

end StackLisp
