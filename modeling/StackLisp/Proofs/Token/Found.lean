import StackLisp.Proofs.Token.Word

/-!
What a scan finds. Whatever the text is, the atoms and keywords found in it are words that spell
just these tokens.
-/

namespace StackLisp

def Token.Sound (token : Token) : Prop :=
  match token.kind with
  | .atom kind => AtomWord token.text.toList kind
  | .keyword => KeywordName token.text.toList
  | _ => True

def Finding.Sound : Finding → Prop
  | .token read => read.Sound
  | .fault _ _ => True

namespace Scan

def Sound (scan : Scan) : Prop :=
  match scan.mode with
  | .normal => scan.buffer = [] ∨ (isAtomic scan.buffer.reverse = true ∧ scan.buffer ≠ ['/'])
  | .colon | .slash | .tilde | .percent => scan.buffer = []
  | _ => True

def Outcome (result : Scan × List Finding) : Prop :=
  result.1.Sound ∧ ∀ finding ∈ result.2, finding.Sound

theorem outcome_silent {scan : Scan} (sound : scan.Sound) : Outcome (scan, []) :=
  ⟨sound, by simp⟩

theorem outcome_cons {scan : Scan} {finding : Finding} {later : List Finding}
    (found : finding.Sound) (outcome : Outcome (scan, later)) :
    Outcome (scan, finding :: later) := by
  refine ⟨outcome.1, ?_⟩
  intro other member
  rcases List.mem_cons.mp member with rfl | inLater
  · exact found
  · exact outcome.2 other inLater

theorem outcome_single {scan : Scan} {finding : Finding} (sound : scan.Sound)
    (found : finding.Sound) : Outcome (scan, [finding]) :=
  outcome_cons found (outcome_silent sound)

theorem failed_outcome (scan : Scan) (problem : LexProblem) : Outcome (scan.failed problem) :=
  outcome_single (.inl rfl) trivial

theorem close_outcome (scan : Scan) (kind : TokenKind)
    (found : (scan.found kind (String.ofList scan.buffer.reverse)).Sound) :
    Outcome (scan.close kind) :=
  outcome_single (.inl rfl) found

theorem passed_sound {scan : Scan} {c : Char} (sound : scan.Sound) : (scan.passed c).Sound := by
  unfold passed
  split <;> exact sound

def Holds (buffer : List Char) : Prop :=
  ∀ kind, classify buffer.reverse = some kind → AtomWord buffer.reverse kind

theorem afterAtom_outcome {scan : Scan} {goOn : Scan → Scan × List Finding}
    (holds : Holds scan.buffer)
    (continues : ∀ empty : Scan, empty.buffer = [] → empty.mode = scan.mode →
      Outcome (goOn empty)) :
    Outcome (scan.afterAtom goOn) := by
  unfold afterAtom
  split
  next empty => exact continues scan (by simpa using empty) rfl
  next nonempty =>
    split
    next kind text sorted =>
      refine outcome_cons ?_ (continues _ rfl rfl)
      unfold sortAtom at sorted
      split at sorted
      next atomKind classified =>
        cases sorted
        simpa [found, Finding.Sound, Token.Sound] using holds _ classified
      next => cases sorted
    next problem _ => exact failed_outcome scan problem

theorem holds_of_atomic {buffer : List Char} (atomic : isAtomic buffer.reverse = true) :
    Holds buffer := fun _ sorted => .plain atomic sorted

theorem holds_nil : Holds [] := by
  intro kind sorted
  exact absurd sorted (by simp [classify, isUnsignedNumeral, stripUnsignedMark?, isHexNumeral,
    isOctalNumeral, isBinaryNumeral, isDecimalNumeral, isNumeral, isFloatNumeral, Decimal.read?,
    Decimal.readUnsigned?, Decimal.spanDigits, isCharLiteral, isPathAtom, isSigilAtom,
    isSymbolAtom])

theorem holds_percent : Holds ['%'] := by
  intro kind sorted
  have symbol : classify ['%'] = some .symbol := by cbv
  have same : kind = .symbol := by
    have := symbol.symm.trans sorted
    exact (Option.some.inj this).symm
  rw [same]
  exact .percent

theorem isAtomic_append {word : List Char} {c : Char} (atomic : isAtomic word = true)
    (inAtom : isAtomChar c = true) (noComment : word = ['/'] → c ≠ '/' ∧ c ≠ '*') :
    isAtomic (word ++ [c]) = true := by
  simp only [isAtomic, Bool.and_eq_true] at atomic ⊢
  obtain ⟨opens, all⟩ := atomic
  refine ⟨?_, by simp [all, inAtom]⟩
  cases word with
  | nil => simp [opensAtom] at opens
  | cons first later =>
      by_cases slash : first = '/'
      · subst slash
        cases later with
        | nil => simpa [opensAtom] using noComment rfl
        | cons next later => exact opens
      · simpa [opensAtom, slash] using opens

theorem isAtomChar_of_ordinary {c : Char} (noQuote : c ≠ '"') (noBacktick : c ≠ '`')
    (noSemicolon : c ≠ ';') (noPunctuation : punctuation? c = none) (noBlank : isBlank c = false)
    (noColon : c ≠ ':') : isAtomChar c = true := by
  simp [isAtomChar, noQuote, noBacktick, noSemicolon, noPunctuation, noBlank, noColon]

theorem isAtomChar_of_ends {c : Char} (ends : isBlank c || c == ')' || c == ']' || c == '\x7d') :
    isAtomChar c = false := by
  by_cases blank : isBlank c = true
  · simp [isAtomChar, blank]
  · have closing : c = ')' ∨ c = ']' ∨ c = '\x7d' := by simpa [blank, or_assoc] using ends
    rcases closing with rfl | rfl | rfl <;> decide

theorem openingMark_outcome {scan : Scan} {c : Char} (normal : scan.mode = .normal)
    (empty : scan.buffer = []) (inAtom : c ≠ ':' → isAtomChar c = true) :
    Outcome (scan.openingMark c) := by
  unfold openingMark
  split
  · exact outcome_silent empty
  · exact outcome_silent empty
  · exact outcome_silent empty
  · exact outcome_silent empty
  · exact outcome_single (by simp [Sound, normal, empty]) trivial
  · exact outcome_single (by simp [Sound, normal, empty]) trivial
  next noSlash noColon noPercent noTilde noBackslash noCaret =>
    refine outcome_silent ?_
    have all := inAtom noColon
    simp [Sound, push, normal, empty, isAtomic, opensAtom, all]
    exact ⟨⟨⟨⟨noPercent, noTilde⟩, noBackslash⟩, noCaret⟩, noSlash⟩

theorem ordinary_outcome {scan : Scan} {c : Char} (normal : scan.mode = .normal)
    (holds : Holds scan.buffer)
    (goesOn : scan.buffer ≠ [] → isAtomChar c = true →
      isAtomic (scan.buffer.reverse ++ [c]) = true)
    (named : c = ':' → scan.buffer ≠ [] → isAtomic scan.buffer.reverse = true) :
    Outcome (scan.ordinary c) := by
  unfold ordinary
  split
  · exact afterAtom_outcome holds fun empty _ _ => outcome_silent trivial
  split
  · exact afterAtom_outcome holds fun empty _ _ => outcome_silent trivial
  split
  · exact afterAtom_outcome holds fun empty _ _ => outcome_silent trivial
  next noQuote noBacktick noSemicolon =>
    split
    next kind punctuated =>
      refine afterAtom_outcome holds fun empty none mode => outcome_single ?_ ?_
      · simp [Sound, mode, normal, none]
      · unfold punctuation? at punctuated
        split at punctuated <;> cases punctuated <;> trivial
    next noPunctuation =>
      split
      · refine afterAtom_outcome holds fun empty none mode => outcome_silent (passed_sound ?_)
        simp [Sound, mode, normal, none]
      next noBlank =>
        have inAtom (noColon : c ≠ ':') : isAtomChar c = true :=
          isAtomChar_of_ordinary noQuote noBacktick noSemicolon noPunctuation
            (by simpa using noBlank) noColon
        split
        next empty => exact openingMark_outcome normal (by simpa using empty) inAtom
        next nonempty =>
          have nonempty : scan.buffer ≠ [] := by simpa using nonempty
          split
          next colon =>
            unfold closeKeyword
            dsimp only
            split
            next symbol =>
              refine close_outcome scan _ ?_
              simp only [found, Finding.Sound, Token.Sound, String.toList_ofList]
              exact ⟨named colon nonempty, symbol⟩
            · exact failed_outcome _ _
          next noColon =>
            refine outcome_silent ?_
            have atomic := goesOn nonempty (inAtom noColon)
            simp [Sound, push, normal, nonempty, atomic]

theorem ordinary_outcome_idle {scan : Scan} {c : Char} (normal : scan.mode = .normal)
    (empty : scan.buffer = []) : Outcome (scan.ordinary c) := by
  apply ordinary_outcome normal
  · rw [empty]
    exact holds_nil
  · exact fun nonempty => absurd empty nonempty
  · exact fun _ nonempty => absurd empty nonempty

theorem late_outcome {scan : Scan} {c : Char} {kind : TokenKind} {text : String}
    (empty : scan.buffer = []) (found : (scan.found kind text).Sound) :
    Outcome (scan.late kind text c) := by
  unfold late
  exact outcome_cons found (ordinary_outcome_idle rfl empty)

theorem step_outcome {scan : Scan} (sound : scan.Sound) (c : Char) : Outcome (scan.step c) := by
  cases mode : scan.mode with
  | normal =>
      simp only [Sound, step, mode] at sound ⊢
      rcases sound with empty | ⟨atomic, noSlash⟩
      · exact ordinary_outcome_idle mode empty
      · refine ordinary_outcome mode (holds_of_atomic atomic) (fun _ inAtom => ?_) fun _ _ => atomic
        refine isAtomic_append atomic inAtom fun slash => ?_
        exact absurd (by simpa using congrArg List.reverse slash) noSlash
  | text =>
      simp only [step, mode]
      split
      · exact outcome_silent trivial
      split
      · exact close_outcome scan _ trivial
      · exact outcome_silent (passed_sound (by simp [Sound, push, mode]))
  | escape =>
      simp only [step, mode]
      split
      · exact outcome_silent trivial
      · exact failed_outcome _ _
  | raw =>
      simp only [step, mode]
      split
      · exact close_outcome scan _ trivial
      · exact outcome_silent (passed_sound (by simp [Sound, push, mode]))
  | lineComment =>
      simp only [step, mode]
      split
      · have closed := close_outcome scan .comment trivial
        exact ⟨passed_sound closed.1, closed.2⟩
      · exact outcome_silent (by simp [Sound, push, mode])
  | blockComment =>
      simp only [step, mode]
      split
      · exact outcome_silent trivial
      · exact outcome_silent (passed_sound (by simp [Sound, push, mode]))
  | blockStar =>
      simp only [step, mode]
      split
      · have closed := close_outcome scan .comment trivial
        refine ⟨closed.1, ?_⟩
        intro finding member
        rcases List.mem_append.mp member with first | last
        · exact closed.2 finding first
        · rw [List.mem_singleton.mp last]
          trivial
      split
      · exact outcome_silent (by simp [Sound, push, mode])
      · exact outcome_silent trivial
  | colon =>
      simp only [Sound, step, mode] at sound ⊢
      split
      · exact outcome_single (.inl sound) (by simpa [found, Finding.Sound, Token.Sound] using
          AtomWord.assign)
      · exact late_outcome sound (by simpa [found, Finding.Sound, Token.Sound] using
          AtomWord.colon)
  | slash =>
      simp only [Sound, step, mode] at sound ⊢
      split
      · exact outcome_silent trivial
      split
      · exact outcome_single trivial trivial
      next noLine noBlock =>
        apply ordinary_outcome rfl
        · exact holds_of_atomic (by simp [push, enter, sound]; decide)
        · intro _ inAtom
          simp [push, enter, sound, isAtomic, opensAtom, inAtom, noLine, noBlock]
          decide
        · intro _ _
          simp [push, enter, sound]
          decide
  | tilde =>
      simp only [Sound, step, mode] at sound ⊢
      split
      · exact outcome_single (.inl sound) trivial
      · exact late_outcome sound trivial
  | percent =>
      simp only [Sound, step, mode] at sound ⊢
      split
      next ends =>
        apply ordinary_outcome rfl
        · simp only [push, enter, sound]
          exact holds_percent
        · exact fun _ inAtom => absurd inAtom (by simp [isAtomChar_of_ends ends])
        · rintro rfl _
          exact absurd ends (by decide)
      · exact late_outcome sound trivial

theorem run_outcome {scan : Scan} (sound : scan.Sound) (text : List Char) :
    Outcome (scan.run text) := by
  induction text generalizing scan with
  | nil => exact outcome_silent sound
  | cons c rest ih =>
      obtain ⟨nextSound, found⟩ := step_outcome sound c
      obtain ⟨lastSound, later⟩ := ih nextSound
      refine ⟨lastSound, ?_⟩
      intro finding member
      rcases List.mem_append.mp member with inFirst | inLater
      · exact found finding inFirst
      · exact later finding inLater

theorem start_sound : Scan.start.Sound := .inl rfl

end Scan

end StackLisp
