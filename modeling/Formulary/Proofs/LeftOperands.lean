/-
  Formulary.Proofs.LeftOperands

  With zeros supplied every sign has a left operand.

  `DropsZeros us ts` says that `ts` is `us` without some zeros that stand directly in front of a
  sign, and `SignsSupplied` that every sign of a list has a left operand. `supplyZeros` looks at
  the kinds of the list that it reads, while `SignsSupplied` speaks of the list that it gives.
  `SuppliedAfter` joins the two: it is what `SignsSupplied` says of the tokens behind one of a
  given kind, and a list leaves behind it the kind of its last token that is not blank
  (`foldl_lastKind`).

  Of the lists from which dropping zeros gives `ts`, and in which every sign has a left operand,
  `supplyZeros ts` has the fewest zeros (`DropsZeros.to_supplyZerosAfter`). So a list whose signs
  all have a left operand stays as it is, and in particular one that zeros have been supplied to.
-/

import Formulary.Proofs.Grammar
import Formulary.Token.Lexeme

namespace Formulary

namespace Token

variable {last : Option Kind} {t : Token} {ts us : List Token}

/-! ## Zeros in front of signs -/

/-- The second list is the first one without some zeros, each of which stands there directly in
    front of a sign. -/
inductive DropsZeros : List Token → List Token → Prop
  | nil : DropsZeros [] []
  | keep (t : Token) {us ts : List Token} (h : DropsZeros us ts) : DropsZeros (t :: us) (t :: ts)
  | drop {s : Token} {us ts : List Token} (hs : s.isSign = true) (h : DropsZeros us ts) :
      DropsZeros (zero :: s :: us) (s :: ts)

theorem DropsZeros.refl (ts : List Token) : DropsZeros ts ts := by
  induction ts with
  | nil => exact .nil
  | cons t ts ih => exact .keep t ih

theorem DropsZeros.sublist (h : DropsZeros us ts) : ts.Sublist us := by
  induction h with
  | nil => exact .slnil
  | keep t _ ih => exact ih.cons_cons t
  | drop _ _ ih => exact (ih.cons_cons _).cons zero

theorem DropsZeros.antisymm (h : DropsZeros us ts) (h' : DropsZeros ts us) : us = ts :=
  h'.sublist.antisymm h.sublist

/-- What picks out no zeros picks out the same tokens of both lists. -/
theorem DropsZeros.filter_eq {p : Token → Bool} (h : DropsZeros us ts) (hzero : p zero = false) :
    us.filter p = ts.filter p := by
  induction h with
  | nil => rfl
  | keep t _ ih => rw [List.filter_cons, ih, List.filter_cons]
  | drop _ _ ih =>
    rw [List.filter_cons, hzero, if_neg Bool.false_ne_true, List.filter_cons, ih, List.filter_cons]

theorem dropsZeros_supplyZerosAfter (last : Option Kind) (ts : List Token) :
    DropsZeros (supplyZerosAfter last ts) ts := by
  induction ts generalizing last with
  | nil => exact .nil
  | cons t ts ih =>
    rw [supplyZerosAfter]
    split
    · next h =>
      have hsign : t.isSign = true := (Bool.and_eq_true_iff.mp h).1
      exact .drop hsign (ih _)
    · exact .keep t (ih _)

theorem filter_supplyZerosAfter {p : Token → Bool} (hzero : p zero = false) (last : Option Kind)
    (ts : List Token) : (supplyZerosAfter last ts).filter p = ts.filter p :=
  (dropsZeros_supplyZerosAfter last ts).filter_eq hzero

/-! ## Left operands -/

/-- Every sign has a left operand: the last token in front of it that is not blank is no opening
    bracket, no comma and no operator. -/
def SignsSupplied (ts : List Token) : Prop :=
  ∀ front s back, ts = front ++ s :: back → s.isSign = true →
    ∃ t, (significant front).getLast? = some t ∧
      t.kind ≠ .openBracket ∧ t.kind ≠ .comma ∧ t.kind ≠ .operator

/-- Every sign of tokens that follow one of kind `last` has a left operand. -/
def SuppliedAfter (last : Option Kind) (ts : List Token) : Prop :=
  ∀ front s back, ts = front ++ s :: back → s.isSign = true →
    lacksOperand (front.foldl lastKind last) = false

/-- A list leaves behind it the kind of its last token that is not blank, if it has one. -/
theorem foldl_lastKind (last : Option Kind) (ts : List Token) :
    ts.foldl lastKind last = ((significant ts).getLast?.map kind).or last := by
  induction ts generalizing last with
  | nil => rfl
  | cons t ts ih =>
    rw [List.foldl_cons, ih, lastKind, significant_cons]
    split
    · rfl
    · rw [List.getLast?_cons]
      cases (significant ts).getLast? <;> rfl

theorem lacksOperand_eq_false_iff (last : Option Kind) :
    lacksOperand last = false ↔
      ∃ k, last = some k ∧ k ≠ .openBracket ∧ k ≠ .comma ∧ k ≠ .operator := by
  cases last with
  | none => simp [lacksOperand]
  | some k => simp [lacksOperand, and_assoc]

/-- At the start of a list, where no token has come before. -/
theorem suppliedAfter_none_iff (ts : List Token) : SuppliedAfter none ts ↔ SignsSupplied ts := by
  have hfront (front : List Token) : lacksOperand (front.foldl lastKind none) = false ↔
      ∃ t, (significant front).getLast? = some t ∧
        t.kind ≠ .openBracket ∧ t.kind ≠ .comma ∧ t.kind ≠ .operator := by
    rw [foldl_lastKind, Option.or_none, lacksOperand_eq_false_iff]
    constructor
    · rintro ⟨k, hk, hother⟩
      obtain ⟨t, ht, rfl⟩ := Option.map_eq_some_iff.mp hk
      exact ⟨t, ht, hother⟩
    · rintro ⟨t, ht, hother⟩
      exact ⟨t.kind, by rw [ht, Option.map_some], hother⟩
  simp only [SuppliedAfter, SignsSupplied, hfront]

theorem suppliedAfter_nil (last : Option Kind) : SuppliedAfter last [] := by
  intro front s back h
  simp at h

theorem suppliedAfter_cons_iff : SuppliedAfter last (t :: ts) ↔
    (t.isSign = true → lacksOperand last = false) ∧ SuppliedAfter (t.lastKind last) ts := by
  constructor
  · intro h
    refine ⟨h [] t ts rfl, ?_⟩
    intro front s back hts
    exact h (t :: front) s back (congrArg (t :: ·) hts)
  · rintro ⟨ht, hts⟩ front s back h
    cases front with
    | nil =>
      obtain ⟨rfl, rfl⟩ := List.cons.inj h
      exact ht
    | cons u front =>
      obtain ⟨rfl, htail⟩ := List.cons.inj h
      exact hts front s back htail

/-! ## Supplying zeros -/

theorem lastKind_of_isSign (h : t.isSign = true) : t.lastKind last = some .operator := by
  simp only [isSign, Bool.and_eq_true, decide_eq_true_eq] at h
  simp [lastKind, isBlank, h.1]

/-- Behind a zero a sign has a left operand. -/
theorem suppliedAfter_zero_cons (h : t.isSign = true) :
    SuppliedAfter last (zero :: t :: ts) ↔ SuppliedAfter (some .operator) ts := by
  have hzero : zero.isSign = false := rfl
  have hlast : zero.lastKind last = some .number := rfl
  have hnumber : lacksOperand (some .number) = false := rfl
  rw [suppliedAfter_cons_iff, hlast, suppliedAfter_cons_iff, lastKind_of_isSign h]
  simp [hzero, hnumber]

/-- Behind every kind of token the signs of what `supplyZerosAfter` gives have a left operand. -/
theorem suppliedAfter_supplyZerosAfter (last : Option Kind) (ts : List Token) :
    SuppliedAfter last (supplyZerosAfter last ts) := by
  induction ts generalizing last with
  | nil => exact suppliedAfter_nil last
  | cons t ts ih =>
    rw [supplyZerosAfter]
    split
    · next h =>
      have hsign : t.isSign = true := (Bool.and_eq_true_iff.mp h).1
      -- With or without the zero, the rest follows an operator.
      rw [suppliedAfter_zero_cons hsign, lastKind_of_isSign hsign]
      exact ih _
    · next h =>
      refine suppliedAfter_cons_iff.mpr ⟨?_, ih _⟩
      intro hsign
      rwa [hsign, Bool.true_and, Bool.not_eq_true] at h

/-- A zero that is supplied cannot be left out, so no list with fewer zeros would do. -/
theorem DropsZeros.to_supplyZerosAfter (h : DropsZeros us ts) (hus : SuppliedAfter last us) :
    DropsZeros us (supplyZerosAfter last ts) := by
  induction h generalizing last with
  | nil => exact .nil
  | keep t _ ih =>
    obtain ⟨ht, htail⟩ := suppliedAfter_cons_iff.mp hus
    -- A sign that `us` has here has a left operand there, so it gets no zero either.
    have hzero : (t.isSign && lacksOperand last) = false := by
      cases hsign : t.isSign with
      | false => rfl
      | true => rw [ht hsign, Bool.and_false]
    rw [supplyZerosAfter, hzero, if_neg Bool.false_ne_true]
    exact .keep t (ih htail)
  | drop hs _ ih =>
    have hrest := ih ((suppliedAfter_zero_cons hs).mp hus)
    -- The zero of `us` is supplied too, or it stands where none is needed and is dropped.
    rw [supplyZerosAfter, lastKind_of_isSign hs]
    split
    · exact .keep zero (.keep _ hrest)
    · exact .drop hs hrest

/-- Tokens stay as they are just when every sign has a left operand already. -/
theorem supplyZeros_eq_self_iff (ts : List Token) : supplyZeros ts = ts ↔ SignsSupplied ts := by
  rw [← suppliedAfter_none_iff]
  constructor
  · intro h
    rw [← h]
    exact suppliedAfter_supplyZerosAfter none ts
  · intro h
    have hleast := (DropsZeros.refl ts).to_supplyZerosAfter h
    exact (dropsZeros_supplyZerosAfter none ts).antisymm hleast

/-- **Left operands.** Tokens with zeros supplied are the given ones but for zeros directly in
    front of signs, every sign among them has a left operand, and no zero more is put in than
    that takes. Supplying zeros once more changes nothing. This asks nothing of the tokens, which
    may be ones that no formula has. -/
theorem supplyZeros_least (ts : List Token) :
    DropsZeros (supplyZeros ts) ts ∧
    SignsSupplied (supplyZeros ts) ∧
    (∀ us, DropsZeros us ts → SignsSupplied us → DropsZeros us (supplyZeros ts)) ∧
    supplyZeros (supplyZeros ts) = supplyZeros ts := by
  have hsupplied : SignsSupplied (supplyZeros ts) :=
    (suppliedAfter_none_iff _).mp (suppliedAfter_supplyZerosAfter none ts)
  refine ⟨dropsZeros_supplyZerosAfter none ts, hsupplied, ?_, ?_⟩
  · intro us hdrops hus
    exact hdrops.to_supplyZerosAfter ((suppliedAfter_none_iff us).mpr hus)
  · exact (supplyZeros_eq_self_iff _).mpr hsupplied

/-- A sign behind an operator and a run of signs, with blanks among them. -/
example : joined (supplyZeros (tokenize "2 * - (+1, - +\x7bx\x7d)")) =
    "2 * 0- (0+1, 0- 0+\x7bx\x7d)" := by
  decide +kernel

end Token

end Formulary
