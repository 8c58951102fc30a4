import StackLisp.Proofs.Datum.Grammar

/-!
Parsing tokens to derivation trees. A sketch holds the open forms and the finished trees as a parse
holds the open forms and the finished data, and it knows nothing of symbols.

Tokens that a tree is a derivation of take a sketch to the one that has finished this tree, so no
tokens have two derivations. The other way around, what a sketch holds derives the tokens that it
has met, and more tokens can close all its open forms. So a token that a sketch refuses is one
behind which no datum can be completed.
-/

namespace StackLisp

inductive OpenTree where
  | row (bracket : Bracket) (items : List Tree)
  | tail (items : List Tree)
  | closing (items : List Tree) (last : Tree)
  | marked (mark : Mark)

def opened? : TokenKind → Option OpenTree
  | .openParen => some (.row .round [])
  | .openSquare => some (.row .square [])
  | .openCurly => some (.row .curly [])
  | .quote => some (.marked .quote)
  | .template => some (.marked .template)
  | .unquote => some (.marked .unquote)
  | .splice => some (.marked .splice)
  | _ => none

structure Sketch where
  forms : List OpenTree
  done : List Tree

namespace Sketch

def empty : Sketch := ⟨[], []⟩

def finish (done : List Tree) (tree : Tree) : List OpenTree → Sketch
  | [] => ⟨[], tree :: done⟩
  | .marked mark :: outer => finish done (.marked mark tree) outer
  | .row bracket items :: outer => ⟨.row bracket (tree :: items) :: outer, done⟩
  | .tail items :: outer => ⟨.closing items tree :: outer, done⟩
  | .closing items last :: outer => ⟨.closing items last :: outer, done⟩

def complete (sketch : Sketch) (tree : Tree) : Sketch := finish sketch.done tree sketch.forms

def begin (sketch : Sketch) (token : Token) : Option Sketch :=
  match opened? token.kind with
  | some form => some { sketch with forms := form :: sketch.forms }
  | none => if token.kind.isAtom then some (sketch.complete (.atom token)) else none

def step (sketch : Sketch) (token : Token) : Option Sketch :=
  match sketch.forms with
  | .row bracket items :: outer =>
    if token.kind = bracket.closes then
      some (finish sketch.done (.row bracket items.reverse) outer)
    else if bracket = .round ∧ token.kind = .backslash then
      if items.isEmpty then none else some { sketch with forms := .tail items :: outer }
    else sketch.begin token
  | .closing items last :: outer =>
    if token.kind = .closeParen then
      some (finish sketch.done (.dotted items.reverse last) outer)
    else none
  | _ => sketch.begin token

def run (sketch : Sketch) : List Token → Option Sketch
  | [] => some sketch
  | token :: later => (sketch.step token).bind fun next => next.run later

theorem run_append (sketch : Sketch) (left right : List Token) :
    sketch.run (left ++ right) = (sketch.run left).bind fun next => next.run right := by
  induction left generalizing sketch with
  | nil => rfl
  | cons token later ih =>
      simp only [List.cons_append, run]
      cases sketch.step token with
      | none => rfl
      | some next => exact ih next

theorem run_single (sketch : Sketch) (token : Token) : sketch.run [token] = sketch.step token := by
  simp [run]

end Sketch

def Awaiting : List OpenTree → Prop
  | .closing _ _ :: _ => False
  | _ => True

def Collecting : List OpenTree → Prop
  | [] => True
  | .row _ _ :: _ => True
  | _ => False

theorem Collecting.awaiting {forms : List OpenTree} (collecting : Collecting forms) :
    Awaiting forms := by
  unfold Collecting at collecting
  split at collecting
  · trivial
  · trivial
  · cases collecting

namespace Sketch

/-! From derivations to sketches. -/

theorem step_of_begins {sketch : Sketch} {token : Token} (awaiting : Awaiting sketch.forms)
    (begins : (opened? token.kind).isSome = true ∨ token.kind.isAtom = true) :
    sketch.step token = sketch.begin token := by
  have noCloser (bracket : Bracket) : token.kind ≠ bracket.closes := by
    intro same
    rw [same] at begins
    cases bracket <;> simp [Bracket.closes, opened?, TokenKind.isAtom] at begins
  have noBackslash : token.kind ≠ .backslash := by
    intro same
    rw [same] at begins
    simp [opened?, TokenKind.isAtom] at begins
  unfold step
  split
  · simp [noCloser, noBackslash]
  next items last outer forms =>
    rw [forms] at awaiting
    cases awaiting
  · rfl

theorem step_of_opens {sketch : Sketch} {token : Token} {form : OpenTree}
    (awaiting : Awaiting sketch.forms) (opens : opened? token.kind = some form) :
    sketch.step token = some ⟨form :: sketch.forms, sketch.done⟩ := by
  rw [step_of_begins awaiting (.inl (by simp [opens])), begin, opens]

theorem step_of_isAtom {sketch : Sketch} {token : Token} (awaiting : Awaiting sketch.forms)
    (isAtom : token.kind.isAtom = true) :
    sketch.step token = some (sketch.complete (.atom token)) := by
  have opensNothing : opened? token.kind = none := by
    unfold TokenKind.isAtom at isAtom
    unfold opened?
    split at isAtom <;> simp_all
  rw [step_of_begins awaiting (.inr isAtom), begin, opensNothing]
  simp [isAtom]

theorem opened?_bracket (bracket : Bracket) : opened? bracket.opens = some (.row bracket []) := by
  cases bracket <;> rfl

theorem opened?_mark (mark : Mark) : opened? mark.kind = some (.marked mark) := by
  cases mark <;> rfl

theorem complete_collecting {sketch : Sketch} (collecting : Collecting sketch.forms)
    (tree : Tree) : Collecting (sketch.complete tree).forms := by
  obtain ⟨forms, done⟩ := sketch
  cases forms with
  | nil => trivial
  | cons form outer =>
      cases form with
      | row bracket items => trivial
      | _ => cases collecting

theorem foldl_row (bracket : Bracket) (outer : List OpenTree) (done trees items : List Tree) :
    trees.foldl complete ⟨.row bracket items :: outer, done⟩ =
      ⟨.row bracket (trees.reverse ++ items) :: outer, done⟩ := by
  induction trees generalizing items with
  | nil => rfl
  | cons tree later ih =>
      rw [List.foldl_cons]
      refine (ih (tree :: items)).trans ?_
      simp

theorem foldl_outside (trees done : List Tree) :
    trees.foldl complete ⟨[], done⟩ = ⟨[], trees.reverse ++ done⟩ := by
  induction trees generalizing done with
  | nil => rfl
  | cons tree later ih =>
      rw [List.foldl_cons]
      refine (ih (tree :: done)).trans ?_
      simp

theorem run_row {sketch : Sketch} {bracket : Bracket} {opening : Token} {items : List Tree}
    {inner : List Token} (awaiting : Awaiting sketch.forms) (opens : opening.kind = bracket.opens)
    (all : ∀ {sketch : Sketch}, Collecting sketch.forms →
      sketch.run inner = some (items.foldl complete sketch)) :
    sketch.run (opening :: inner) =
      some ⟨.row bracket items.reverse :: sketch.forms, sketch.done⟩ := by
  have entered : opened? opening.kind = some (.row bracket []) := by
    rw [opens, opened?_bracket]
  have collecting : Collecting (.row bracket [] :: sketch.forms) := trivial
  rw [run, step_of_opens awaiting entered, Option.bind_some, all collecting, foldl_row,
    List.append_nil]

theorem step_closes {forms : List OpenTree} {done items : List Tree} {bracket : Bracket}
    {closing : Token} (closes : closing.kind = bracket.closes) :
    step ⟨.row bracket items :: forms, done⟩ closing =
      some (finish done (.row bracket items.reverse) forms) := by
  simp [step, closes]

theorem step_back {forms : List OpenTree} {done items : List Tree} {back : Token}
    (some : items ≠ []) (isBack : back.kind = .backslash) :
    step ⟨.row .round items :: forms, done⟩ back =
      .some ⟨.tail items :: forms, done⟩ := by
  simp [step, isBack, Bracket.closes, some]

theorem step_closing {forms : List OpenTree} {done items : List Tree} {last : Tree}
    {closing : Token} (closes : closing.kind = .closeParen) :
    step ⟨.closing items last :: forms, done⟩ closing =
      some (finish done (.dotted items.reverse last) forms) := by
  simp [step, closes]

end Sketch

open Sketch

mutual

theorem Derives.run {tree : Tree} {tokens : List Token} (derives : Derives tree tokens)
    {sketch : Sketch} (awaiting : Awaiting sketch.forms) :
    sketch.run tokens = some (sketch.complete tree) := by
  cases derives with
  | atom isAtom => rw [run_single, step_of_isAtom awaiting isAtom]
  | @row bracket items opening closing inner opens all closes =>
      rw [← List.cons_append, run_append, run_row awaiting opens all.run, Option.bind_some,
        run_single, step_closes closes, List.reverse_reverse]
      rfl
  | @dotted items last opening back closing inner final opens some all isBack one closes =>
      have awaitsLast : Awaiting (.tail items.reverse :: sketch.forms) := trivial
      have entered : opening.kind = Bracket.round.opens := opens
      rw [← List.cons_append, run_append, run_row awaiting entered all.run, Option.bind_some,
        Sketch.run, step_back (by simpa using some) isBack, Option.bind_some, run_append,
        one.run awaitsLast, Option.bind_some, run_single, complete, finish, step_closing closes,
        List.reverse_reverse]
      rfl
  | @marked mark body token inner marks one =>
      have entered : opened? token.kind = some (.marked mark) := by rw [marks, opened?_mark]
      have awaitsBody : Awaiting (.marked mark :: sketch.forms) := trivial
      rw [Sketch.run, step_of_opens awaiting entered, Option.bind_some, one.run awaitsBody]
      rfl

theorem DerivesAll.run {trees : List Tree} {tokens : List Token}
    (derives : DerivesAll trees tokens) {sketch : Sketch}
    (collecting : Collecting sketch.forms) :
    sketch.run tokens = some (trees.foldl complete sketch) := by
  cases derives with
  | nil => rfl
  | cons one all =>
      rw [run_append, one.run collecting.awaiting, Option.bind_some,
        all.run (complete_collecting collecting _)]
      rfl

end

theorem DerivesAll.run_outside {trees : List Tree} {tokens : List Token}
    (derives : DerivesAll trees tokens) (done : List Tree) :
    Sketch.run ⟨[], done⟩ tokens = some ⟨[], trees.reverse ++ done⟩ := by
  have collecting : Collecting [] := trivial
  rw [derives.run collecting, foldl_outside]

theorem DerivesAll.unique {left right : List Tree} {tokens : List Token}
    (first : DerivesAll left tokens) (second : DerivesAll right tokens) : left = right := by
  have same := (first.run_outside []).symm.trans (second.run_outside [])
  simpa using same

/-! From sketches to derivations. -/

inductive OpenTree.Spells : OpenTree → List Token → Prop
  | row {bracket : Bracket} {items : List Tree} {opening : Token} {inner : List Token} :
      opening.kind = bracket.opens → DerivesAll items.reverse inner →
      Spells (.row bracket items) (opening :: inner)
  | tail {items : List Tree} {opening back : Token} {inner : List Token} :
      opening.kind = .openParen → items ≠ [] → DerivesAll items.reverse inner →
      back.kind = .backslash → Spells (.tail items) (opening :: (inner ++ [back]))
  | closing {items : List Tree} {last : Tree} {opening back : Token} {inner final : List Token} :
      opening.kind = .openParen → items ≠ [] → DerivesAll items.reverse inner →
      back.kind = .backslash → Derives last final →
      Spells (.closing items last) (opening :: (inner ++ back :: final))
  | marked {mark : Mark} {token : Token} : token.kind = mark.kind → Spells (.marked mark) [token]

/-- The tokens of some open forms, each of which stands where a datum may. -/
inductive AllSpell : List OpenTree → List Token → Prop
  | nil : AllSpell [] []
  | cons {form : OpenTree} {outer : List OpenTree} {front back : List Token} :
      AllSpell outer front → Awaiting outer → form.Spells back →
      AllSpell (form :: outer) (front ++ back)

namespace Sketch

def Spells (sketch : Sketch) (tokens : List Token) : Prop :=
  ∃ early late, tokens = early ++ late ∧ DerivesAll sketch.done.reverse early ∧
    AllSpell sketch.forms late

theorem empty_spells : empty.Spells [] := ⟨[], [], rfl, .nil, .nil⟩

theorem finish_spells {forms : List OpenTree} {done : List Tree} {tree : Tree}
    {early late part : List Token} (finished : DerivesAll done.reverse early)
    (spell : AllSpell forms late) (awaiting : Awaiting forms) (derives : Derives tree part) :
    (finish done tree forms).Spells (early ++ late ++ part) := by
  induction forms generalizing tree late part with
  | nil =>
      cases spell
      refine ⟨early ++ part, [], by simp, ?_, .nil⟩
      simpa [finish] using finished.append (.single derives)
  | cons form outer ih =>
      cases spell with
      | @cons _ _ front back spell outerAwaiting spells =>
          cases spells with
          | @row bracket items opening inner opens all =>
              refine ⟨early, front ++ (opening :: (inner ++ part)), by simp, finished,
                .cons spell outerAwaiting (.row opens ?_)⟩
              simpa using all.append (.single derives)
          | @tail items opening back inner opens some all isBack =>
              exact ⟨early, front ++ (opening :: (inner ++ back :: part)), by simp, finished,
                .cons spell outerAwaiting (.closing opens some all isBack derives)⟩
          | closing => cases awaiting
          | @marked mark token marks =>
              simpa [finish] using ih spell outerAwaiting (.marked marks derives)

theorem opened?_spells {token : Token} {form : OpenTree} (opens : opened? token.kind = some form) :
    form.Spells [token] := by
  have row (bracket : Bracket) (same : token.kind = bracket.opens) :
      OpenTree.Spells (.row bracket []) [token] := .row same .nil
  unfold opened? at opens
  split at opens
  next same => cases opens; exact row .round same
  next same => cases opens; exact row .square same
  next same => cases opens; exact row .curly same
  next same => cases opens; exact .marked same
  next same => cases opens; exact .marked same
  next same => cases opens; exact .marked same
  next same => cases opens; exact .marked same
  next => cases opens

theorem begin_spells {sketch next : Sketch} {token : Token} {tokens : List Token}
    (spells : sketch.Spells tokens) (awaiting : Awaiting sketch.forms)
    (begun : sketch.begin token = some next) : next.Spells (tokens ++ [token]) := by
  obtain ⟨early, late, rfl, finished, spell⟩ := spells
  unfold begin at begun
  split at begun
  next form opens =>
    cases begun
    exact ⟨early, late ++ [token], by simp, finished, .cons spell awaiting (opened?_spells opens)⟩
  next =>
    split at begun
    next isAtom =>
      cases begun
      exact finish_spells finished spell awaiting (.atom isAtom)
    next => cases begun

theorem Spells.innermost {sketch : Sketch} {tokens : List Token} {form : OpenTree}
    {outer : List OpenTree} (spells : sketch.Spells tokens) (forms : sketch.forms = form :: outer) :
    ∃ early front back, tokens = early ++ (front ++ back) ∧ DerivesAll sketch.done.reverse early ∧
      AllSpell outer front ∧ Awaiting outer ∧ form.Spells back := by
  obtain ⟨early, late, rfl, finished, spell⟩ := spells
  rw [forms] at spell
  cases spell with
  | cons spell awaiting inner => exact ⟨early, _, _, rfl, finished, spell, awaiting, inner⟩

theorem step_spells {sketch next : Sketch} {token : Token} {tokens : List Token}
    (spells : sketch.Spells tokens) (stepped : sketch.step token = some next) :
    next.Spells (tokens ++ [token]) := by
  unfold step at stepped
  split at stepped
  next bracket items outer forms =>
    have awaiting : Awaiting sketch.forms := by
      rw [forms]
      trivial
    split at stepped
    next closes =>
      cases stepped
      obtain ⟨early, front, back, rfl, finished, spell, outerAwaiting, inner⟩ :=
        spells.innermost forms
      cases inner with
      | row opens all => simpa using finish_spells finished spell outerAwaiting (.row opens all closes)
    next =>
      split at stepped
      next behind =>
        split at stepped
        · cases stepped
        next nonempty =>
          cases stepped
          obtain ⟨rfl, isBack⟩ := behind
          obtain ⟨early, front, back, rfl, finished, spell, outerAwaiting, inner⟩ :=
            spells.innermost forms
          cases inner with
          | @row _ _ opening items opens all =>
              exact ⟨early, front ++ (opening :: (items ++ [token])), by simp, finished,
                .cons spell outerAwaiting (.tail opens (by simpa using nonempty) all isBack)⟩
      next => exact begin_spells spells awaiting stepped
  next items last outer forms =>
    split at stepped
    next closes =>
      cases stepped
      obtain ⟨early, front, back, rfl, finished, spell, outerAwaiting, inner⟩ :=
        spells.innermost forms
      cases inner with
      | closing opens some all isBack one =>
          have nonempty : items.reverse ≠ [] := by simpa using some
          simpa using finish_spells finished spell outerAwaiting
            (.dotted opens nonempty all isBack one closes)
    next => cases stepped
  next noRow noClosing =>
    have awaiting : Awaiting sketch.forms := by
      unfold Awaiting
      split
      next items last outer forms => exact noClosing items last outer forms
      next => trivial
    exact begin_spells spells awaiting stepped

theorem run_spells {sketch next : Sketch} {tokens later : List Token}
    (spells : sketch.Spells tokens) (ran : sketch.run later = some next) :
    next.Spells (tokens ++ later) := by
  induction later generalizing sketch tokens with
  | nil =>
      cases ran
      simpa using spells
  | cons token later ih =>
      obtain ⟨middle, stepped, rest⟩ := Option.bind_eq_some_iff.mp ran
      simpa using ih (step_spells spells stepped) rest

end Sketch

/-! Closing the open forms. -/

theorem OpenTree.Spells.nonempty {form : OpenTree} {back : List Token}
    (spells : form.Spells back) : back ≠ [] := by
  cases spells <;> simp

theorem OpenTree.Spells.close {form : OpenTree} {back middle : List Token} {tree : Tree}
    (spells : form.Spells back) (awaiting : Awaiting [form]) (derives : Derives tree middle) :
    ∃ whole rest, Derives whole (back ++ middle ++ rest) := by
  cases spells with
  | @row bracket items opening inner opens all =>
      refine ⟨.row bracket (items.reverse ++ [tree]), [⟨bracket.closes, "", 0⟩], ?_⟩
      simpa using Derives.row opens (all.append (.single derives)) rfl
  | @tail items opening back inner opens some all isBack =>
      refine ⟨.dotted items.reverse tree, [⟨.closeParen, "", 0⟩], ?_⟩
      have nonempty : items.reverse ≠ [] := by simpa using some
      simpa using Derives.dotted opens nonempty all isBack derives rfl
  | closing => cases awaiting
  | @marked mark token marks =>
      refine ⟨.marked mark tree, [], ?_⟩
      simpa using Derives.marked marks derives

theorem AllSpell.close {forms : List OpenTree} {late middle : List Token} {tree : Tree}
    (spell : AllSpell forms late) (awaiting : Awaiting forms) (derives : Derives tree middle) :
    ∃ whole rest, Derives whole (late ++ middle ++ rest) := by
  induction spell generalizing tree middle with
  | nil => exact ⟨tree, [], by simpa using derives⟩
  | @cons form outer front back spell outerAwaiting spells ih =>
      have formAwaiting : Awaiting [form] := by
        cases form <;> trivial
      obtain ⟨whole, rest, wholeDerives⟩ := spells.close formAwaiting derives
      obtain ⟨outermost, further, derivation⟩ := ih outerAwaiting wholeDerives
      exact ⟨outermost, rest ++ further, by simpa using derivation⟩

theorem OpenTree.Spells.ends {form : OpenTree} {back : List Token} (spells : form.Spells back) :
    Begins back := by
  have byAtom (awaiting : Awaiting [form]) : Begins back := by
    have isAtom : Derives (.atom ⟨.text, "", 0⟩) [⟨.text, "", 0⟩] := .atom rfl
    obtain ⟨whole, rest, derives⟩ := spells.close awaiting isAtom
    exact ⟨whole, ⟨.text, "", 0⟩ :: rest, by simp, by simpa using derives⟩
  cases form with
  | row bracket items => exact byAtom trivial
  | tail items => exact byAtom trivial
  | closing items last =>
      cases spells with
      | closing opens some all isBack one =>
          have nonempty : items.reverse ≠ [] := by simpa using some
          refine ⟨.dotted items.reverse last, [⟨.closeParen, "", 0⟩], by simp, ?_⟩
          simpa using Derives.dotted opens nonempty all isBack one rfl
  | marked mark => exact byAtom trivial

theorem AllSpell.begins {forms : List OpenTree} {late : List Token}
    (spell : AllSpell forms late) : Begins late := by
  cases spell with
  | nil => exact ⟨.atom ⟨.text, "", 0⟩, [⟨.text, "", 0⟩], by simp, .atom rfl⟩
  | @cons form outer front back spell awaiting spells =>
      obtain ⟨tree, rest, some, derives⟩ := spells.ends
      obtain ⟨whole, further, derivation⟩ := spell.close awaiting derives
      exact ⟨whole, rest ++ further, by simp [some], by simpa using derivation⟩

namespace Sketch

/-! What is finished. -/

theorem finish_done (done : List Tree) (tree : Tree) (forms : List OpenTree) :
    ((finish done tree forms).done = done ∧ (finish done tree forms).forms ≠ []) ∨
      ∃ whole, finish done tree forms = ⟨[], whole :: done⟩ := by
  induction forms generalizing tree with
  | nil => exact .inr ⟨tree, rfl⟩
  | cons form outer ih =>
      cases form with
      | marked mark => exact ih _
      | row bracket items => exact .inl ⟨rfl, by simp [finish]⟩
      | tail items => exact .inl ⟨rfl, by simp [finish]⟩
      | closing items last => exact .inl ⟨rfl, by simp [finish]⟩

theorem step_done {sketch next : Sketch} {token : Token}
    (stepped : sketch.step token = some next) :
    (next.done = sketch.done ∧ next.forms ≠ []) ∨
      ∃ whole, next = ⟨[], whole :: sketch.done⟩ := by
  have begun (begun : sketch.begin token = some next) :
      (next.done = sketch.done ∧ next.forms ≠ []) ∨
        ∃ whole, next = ⟨[], whole :: sketch.done⟩ := by
    unfold begin at begun
    split at begun
    · cases begun
      exact .inl ⟨rfl, by simp⟩
    · split at begun
      · cases begun
        exact finish_done _ _ _
      · cases begun
  unfold step at stepped
  split at stepped
  · split at stepped
    · cases stepped
      exact finish_done _ _ _
    · split at stepped
      · split at stepped
        · cases stepped
        · cases stepped
          exact .inl ⟨rfl, by simp⟩
      · exact begun stepped
  · split at stepped
    · cases stepped
      exact finish_done _ _ _
    · cases stepped
  · exact begun stepped

theorem run_done {sketch next : Sketch} {tokens : List Token}
    (ran : sketch.run tokens = some next) :
    ∃ extra, next.done = extra ++ sketch.done ∧
      (next.forms = [] → tokens ≠ [] → extra ≠ []) := by
  induction tokens generalizing sketch with
  | nil =>
      cases ran
      exact ⟨[], rfl, fun _ some => absurd rfl some⟩
  | cons token later ih =>
      obtain ⟨middle, stepped, rest⟩ := Option.bind_eq_some_iff.mp ran
      obtain ⟨extra, done, grows⟩ := ih rest
      rcases step_done stepped with ⟨same, isOpen⟩ | ⟨whole, rfl⟩
      · refine ⟨extra, by rw [done, same], fun closed _ => grows closed ?_⟩
        rintro rfl
        cases rest
        exact isOpen closed
      · exact ⟨extra ++ [whole], by simp [done], fun _ _ => by simp⟩

end Sketch

theorem run_of_begins {trees : List Tree} {whole part : List Token}
    (derives : DerivesAll trees whole) (begins : Begins part) :
    ∃ forms, Sketch.empty.run (whole ++ part) = some ⟨forms, trees.reverse⟩ ∧
      (part ≠ [] → forms ≠ []) := by
  obtain ⟨tree, rest, some, next⟩ := begins
  have first : Sketch.empty.run whole = .some ⟨[], trees.reverse⟩ :=
    (derives.run_outside []).trans (by rw [List.append_nil])
  have onward := (DerivesAll.single next).run_outside trees.reverse
  rw [run_append] at onward
  obtain ⟨⟨forms, done⟩, ran, ended⟩ := Option.bind_eq_some_iff.mp onward
  obtain ⟨early, grown, finishes⟩ := run_done ran
  obtain ⟨late, last, closes⟩ := run_done ended
  have lengths : 1 = late.length + early.length := by
    dsimp only at grown last
    have := congrArg List.length last
    rw [grown] at this
    simp only [List.reverse_cons, List.reverse_nil, List.nil_append, List.singleton_append,
      List.length_cons, List.length_append] at this
    omega
  have oneMore : 0 < late.length := List.length_pos_iff.mpr (closes rfl some)
  have none : early = [] := List.length_eq_zero_iff.mp (by omega)
  subst none
  refine ⟨forms, ?_, ?_⟩
  · rw [run_append, first, Option.bind_some, ran]
    exact congrArg _ (congrArg _ grown)
  · rintro nonempty rfl
    exact finishes rfl nonempty rfl

/-- Tokens that no sketch refuses are a row of whole data and the beginning of one more. -/
theorem begins_of_run {sketch : Sketch} {tokens : List Token}
    (ran : Sketch.empty.run tokens = some sketch) :
    ∃ whole part, tokens = whole ++ part ∧ DerivesAll sketch.done.reverse whole ∧ Begins part ∧
      (part = [] ↔ sketch.forms = []) := by
  obtain ⟨whole, part, cut, derives, spell⟩ := run_spells empty_spells ran
  refine ⟨whole, part, by simpa using cut, derives, spell.begins, ?_⟩
  generalize sketch.forms = forms at spell
  cases spell with
  | nil => simp
  | cons spell awaiting spells => simp [spells.nonempty]

end StackLisp
