/-
  Formulary.Proofs.Layout

  The layout of a formula makes no difference.

  Everything behind the scan depends on the tokens that are not blank: the tree, because
  neither zeros nor brackets are put in for a blank and the builder passes over it
  (`Expr.ofFormula_congr`), and the faults up to the numbers of their tokens, because the
  check looks through blanks in both directions (`check_significant`). With blanks
  between two tokens of a formula that is all the same as before (`insert_blanks`).
-/

import Formulary.Proofs.Acceptance
import Formulary.Proofs.Meaning
import Formulary.Proofs.Splicing

namespace Formulary

open Text (isBlank)
open Token (significant)

/-! ## Trees -/

/-- The tree of a formula depends on its tokens that are not blank. -/
theorem Expr.ofFormula_congr {formula other : String}
    (h : significant (tokenize formula) = significant (tokenize other)) :
    Expr.ofFormula formula = Expr.ofFormula other := by
  have hzeros : significant (Token.supplyZeros (tokenize formula)) =
      significant (Token.supplyZeros (tokenize other)) := by
    rw [Token.supplyZeros, Token.supplyZeros, Token.significant_supplyZerosAfter,
      Token.significant_supplyZerosAfter, h]
  rw [Expr.ofFormula, Expr.ofFormula, Expr.ofTokens_bracketed hzeros rfl,
    Expr.ofTokens_bracketed rfl rfl]

/-! ## Faults -/

namespace Fault

/-- The same problem of the same token under another number. -/
def renumber (number : Nat → Nat) (f : Fault) : Fault :=
  ⟨f.problem, f.place.map fun place => (number place.1, place.2)⟩

/-- The number of a token among those that are not blank. -/
def numberOf (ts : List Token) (index : Nat) : Nat := (significant (ts.take index)).length

variable (number : Nat → Nat)

/-- Something open whose token has another number. -/
def renumberOpen (o : Open) : Open := { o with index := number o.index }

theorem renumber_ofUnclosed (opened : List Open) :
    (ofUnclosed opened).map (renumber number) = ofUnclosed (opened.map (renumberOpen number)) := by
  rw [ofUnclosed, ofUnclosed, ← List.map_reverse, List.map_map, List.map_map]
  rfl

theorem renumber_openBehind (before : Option Kind) (opened : List Open) (index : Nat) (t : Token) :
    (openBehind before opened index t).map (renumberOpen number) =
      openBehind before (opened.map (renumberOpen number)) (number index) t := by
  unfold openBehind
  cases opens before t with
  | some o => rfl
  | none =>
    cases opened with
    | nil => rfl
    | cons o outer => cases h : closes t o.opening <;> simp [renumberOpen, h]

/-- The token behind some others has their number among those that are not blank. -/
theorem numberOf_append (front back : List Token) :
    numberOf (front ++ back) front.length = (significant front).length := by
  rw [numberOf, List.take_left]

/-- The check of the tokens behind `front` passes over blanks, but for the numbers. -/
theorem renumber_checkFrom (names : Option (List String)) (front ts : List Token)
    (before : Option Kind) (opened : List Open) :
    (checkFrom names front.length before opened ts).map (renumber (numberOf (front ++ ts))) =
      checkFrom names (significant front).length before
        (opened.map (renumberOpen (numberOf (front ++ ts)))) (significant ts) := by
  induction ts generalizing front before opened with
  | nil => exact renumber_ofUnclosed _ opened
  | cons t ts ih =>
    have hfront : front ++ t :: ts = (front ++ [t]) ++ ts := by simp
    have hlen : front.length + 1 = (front ++ [t]).length := by simp
    have hnumber := numberOf_append front (t :: ts)
    rw [Token.significant_cons]
    by_cases hb : t.isBlank = true
    · -- The check leaves its state as it is, and the token has no number among the others.
      have hsame : significant (front ++ [t]) = significant front := by
        rw [Token.significant_append, Token.significant_cons, if_pos hb]
        exact List.append_nil _
      rw [checkFrom_blank _ _ _ _ hb, if_pos hb, hfront, hlen, ih, hsame]
    · have hnext : (significant (front ++ [t])).length = (significant front).length + 1 := by
        rw [Token.significant_append, Token.significant_cons, if_neg hb]
        simp [significant]
      have hopening (opened : List Open) :
          (opened.map (renumberOpen (numberOf (front ++ t :: ts)))).map Open.opening =
            opened.map Open.opening := by
        rw [List.map_map]
        rfl
      have hkind : nextKind (significant ts) = nextKind ts := by
        simp [nextKind_eq, significant, List.filter_filter]
      have hown (ps : List Problem) :
          (ps.map (atToken front.length t)).map (renumber (numberOf (front ++ t :: ts))) =
            ps.map (atToken (significant front).length t) := by
        rw [List.map_map, ← hnumber]
        rfl
      have hrest := ih (front ++ [t]) (t.lastKind before) (openBehind before opened front.length t)
      rw [← hfront, ← hlen, renumber_openBehind, hnumber, hnext] at hrest
      rw [if_neg hb, checkFrom, checkFrom, List.map_append, hown, hrest, hopening, hkind]

/-- The faults of a formula, each with the number of its token among those that are not blank,
    are those of these tokens alone. -/
theorem renumber_check (allowed : Option (List String)) (ts : List Token) :
    (check allowed ts).map (renumber (numberOf ts)) = check allowed (significant ts) :=
  renumber_checkFrom _ [] ts none []

end Fault

/-! ## Blanks between tokens -/

/-- **Layout.** Blanks between two tokens of a formula, or at its start or end, make no difference
    anywhere but behind an opening brace, a reference name, an opening quote and the content of
    a literal: the other tokens and the tree stay the same, so that the value does for every
    look-up, with effects or not, and so do the faults, their order and their tokens, each token
    by its number among those that are not blank. -/
theorem insert_blanks (formula w : String) (before after : List Token)
    (h : tokenize formula = before ++ after)
    (hbefore : ∀ t ∈ before.getLast?, t.kind ∉ Scan.enclosing)
    (hw : ∀ c ∈ w.toList, isBlank c = true) :
    let spaced := Token.joined before ++ w ++ Token.joined after
    significant (tokenize spaced) = significant (tokenize formula) ∧
    Expr.ofFormula spaced = Expr.ofFormula formula ∧
    (∀ look, Expr.value look (Expr.ofFormula spaced) = Expr.value look (Expr.ofFormula formula)) ∧
    (∀ (m : Type → Type) [Monad m] (look : String → m String),
      Expr.joinedM look (Expr.ofFormula spaced) = Expr.joinedM look (Expr.ofFormula formula)) ∧
    ∀ allowed, (Fault.check allowed (tokenize spaced)).map
        (Fault.renumber (Fault.numberOf (tokenize spaced))) =
      (Fault.check allowed (tokenize formula)).map
        (Fault.renumber (Fault.numberOf (tokenize formula))) := by
  intro spaced
  have htokens : significant (tokenize spaced) = significant (tokenize formula) :=
    Scan.significant_tokenize_insert h hbefore hw
  have htree : Expr.ofFormula spaced = Expr.ofFormula formula := Expr.ofFormula_congr htokens
  refine ⟨htokens, htree, fun look => ?_, fun m _ look => ?_, fun allowed => ?_⟩
  · rw [htree]
  · rw [htree]
  · rw [Fault.renumber_check, Fault.renumber_check, htokens]

/-- A tab and a blank in front of the bracket of a call, behind an unknown name. -/
theorem insert_blanks_call :
    tokenize "3--1<=mix(2)" =
      [⟨.number, "3"⟩, ⟨.operator, "-"⟩, ⟨.number, "-1"⟩, ⟨.operator, "<="⟩, ⟨.function, "mix"⟩] ++
        [.leftBracket, ⟨.number, "2"⟩, .rightBracket] ∧
    significant (tokenize "3--1<=mix\t (2)") = significant (tokenize "3--1<=mix(2)") ∧
    (Fault.check none (tokenize "3--1<=mix\t (2)")).map
        (Fault.renumber (Fault.numberOf (tokenize "3--1<=mix\t (2)"))) =
      [⟨.invalidFunction, some (4, ⟨.function, "mix"⟩)⟩] := by
  have htokens : tokenize "3--1<=mix(2)" =
      [⟨.number, "3"⟩, ⟨.operator, "-"⟩, ⟨.number, "-1"⟩, ⟨.operator, "<="⟩, ⟨.function, "mix"⟩] ++
        [.leftBracket, ⟨.number, "2"⟩, .rightBracket] := by
    decide +kernel
  have hblank : ∀ c ∈ "\t ".toList, isBlank c = true := by
    simp [isBlank]
  have hspaced := insert_blanks _ "\t " _ _ htokens (by decide) hblank
  have htext : Token.joined [⟨.number, "3"⟩, ⟨.operator, "-"⟩, ⟨.number, "-1"⟩, ⟨.operator, "<="⟩,
      ⟨.function, "mix"⟩] ++ "\t " ++ Token.joined [.leftBracket, ⟨.number, "2"⟩, .rightBracket] =
      "3--1<=mix\t (2)" := by
    decide +kernel
  rw [htext] at hspaced
  obtain ⟨hsignificant, -, -, -, hfaults⟩ := hspaced
  refine ⟨htokens, hsignificant, (hfaults none).trans ?_⟩
  decide +kernel

end Formulary
