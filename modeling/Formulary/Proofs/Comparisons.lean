/-
  Formulary.Proofs.Comparisons

  The comparisons of two texts as one order.

  A text has a standing (`standing`): a numeric one the place of its number, any other its UTF-16
  units. The two kinds of standing lie side by side in a partial order. Each kind is linear, and a
  standing of one kind is never below one of the other.

  Two texts compare as their standings do (`compareTexts?_eq`), so each of the five comparisons is
  a relation between standings (`holds_lt_iff` and those behind it), and what `comparisons_ordered`
  says of them are laws of a partial order. That texts which are not numeric are equal only to
  themselves is because no two texts have the same units (`utf16_injective`).
-/

import Formulary.Builtin.Logical
import Mathlib

namespace Formulary

theorem Binary64.isNaN_of_compare? {x y : Binary64} {o : Ordering} (h : x.compare? y = some o) :
    x.isNaN = false ∧ y.isNaN = false := by
  cases x <;> cases y <;> simp_all [compare?, place?, isNaN]

/-! ## Units -/

namespace Text

variable {c d : Char} {us vs : List ℕ}

/-- The first unit tells whether a second one belongs to the character. -/
theorem units_append_inj (h : units c ++ us = units d ++ vs) : c = d ∧ us = vs := by
  have hc := c.valid
  have hd := d.valid
  suffices hnat : c.toNat = d.toNat ∧ us = vs from ⟨Char.toNat_inj.mp hnat.1, hnat.2⟩
  simp only [UInt32.isValidChar, Nat.isValidChar] at hc hd
  change c.toNat < 0xD800 ∨ 0xDFFF < c.toNat ∧ c.toNat < 0x110000 at hc
  change d.toNat < 0xD800 ∨ 0xDFFF < d.toNat ∧ d.toNat < 0x110000 at hd
  simp only [units] at h
  split at h <;> split at h <;> simp only [List.cons_append, List.nil_append, List.cons.injEq] at h
  · exact h
  · omega
  · omega
  · exact ⟨by omega, h.2.2⟩

theorem units_ne_nil (c : Char) : units c ≠ [] := by
  rw [units]
  split <;> exact List.cons_ne_nil _ _

theorem flatMap_units_inj {cs ds : List Char} (h : cs.flatMap units = ds.flatMap units) :
    cs = ds := by
  induction cs generalizing ds with
  | nil =>
    cases ds with
    | nil => rfl
    | cons d ds => simp [units_ne_nil] at h
  | cons c cs ih =>
    cases ds with
    | nil => simp [units_ne_nil] at h
    | cons d ds =>
      obtain ⟨rfl, hrest⟩ := units_append_inj h
      rw [ih hrest]

/-- No two texts have the same units. -/
theorem utf16_injective : Function.Injective utf16 :=
  fun _ _ h => String.toList_inj.mp (flatMap_units_inj h)

/-- Lists of units compare by the first one that differs, as lists of numbers are ordered. -/
theorem compare_eq_lt_iff (us vs : List ℕ) : compare us vs = .lt ↔ us < vs := by
  induction us generalizing vs with
  | nil =>
    cases vs with
    | nil => decide
    | cons v vs => simp
  | cons u us ih =>
    cases vs with
    | nil => simp
    | cons v vs =>
      rw [List.cons_lt_cons_iff, ← ih]
      simp only [List.compare_eq_compareLex, List.compareLex_cons_cons, Ordering.then_eq_lt,
        compare_lt_iff_lt, compare_eq_iff_eq]

end Text

namespace Builtin

open Decimal (read)

variable {a b : String}

/-! ## Standings -/

/-- Where a text can stand: at the place of a number or at a list of units. -/
abbrev Standing : Type := (ℤ ×ₗ ℤ) ⊕ List ℕ

/-- Standings of one kind compare with each other, those of different kinds do not. -/
def Standing.compare? : Standing → Standing → Option Ordering
  | .inl p, .inl q => some (compare p q)
  | .inr us, .inr vs => some (compare us vs)
  | _, _ => none

theorem Standing.compare?_swap (x y : Standing) :
    y.compare? x = (x.compare? y).map Ordering.swap := by
  cases x <;> cases y
  · exact congrArg some Std.OrientedCmp.eq_swap
  · rfl
  · rfl
  · exact congrArg some Std.OrientedCmp.eq_swap

theorem Standing.compare?_eq_lt_iff {x y : Standing} : x.compare? y = some .lt ↔ x < y := by
  cases x <;> cases y <;>
    simp [Standing.compare?, compare_lt_iff_lt, Text.compare_eq_lt_iff]

theorem Standing.compare?_eq_eq_iff {x y : Standing} : x.compare? y = some .eq ↔ x = y := by
  cases x <;> cases y <;> simp [Standing.compare?, compare_eq_iff_eq]

/-- The orders that a test can accept, as relations between standings. -/
theorem Standing.any_compare?_iff (accept : Ordering → Bool) (x y : Standing) :
    (x.compare? y).any accept = true ↔
      (accept .lt = true ∧ x < y) ∨ (accept .eq = true ∧ x = y) ∨ (accept .gt = true ∧ y < x) := by
  rw [← compare?_eq_lt_iff, ← compare?_eq_eq_iff, ← compare?_eq_lt_iff (x := y), compare?_swap x y]
  generalize x.compare? y = order
  rcases order with _ | _ | _ | _ <;> simp

/-- Standings of one kind are in exactly one order. -/
theorem Standing.lt_or_eq_or_gt {x y : Standing} (h : x.isLeft = y.isLeft) :
    x < y ∨ x = y ∨ y < x := by
  cases x <;> cases y <;> simp [lt_trichotomy] at h ⊢

/-- Of two standings of different kinds neither is below the other. -/
theorem Standing.not_le {x y : Standing} (h : x.isLeft ≠ y.isLeft) : ¬ x ≤ y := by
  cases x <;> cases y <;> simp at h ⊢

/-- Whether a text is read as a number. -/
def IsNumeric (s : String) : Prop := (read s).isNaN = false

/-- Where a text stands among those that it compares with: a numeric one at the place of its number,
    any other at its units. -/
def standing (s : String) : Standing :=
  match (read s).place? with
  | some p => .inl (toLex p)
  | none => .inr (Text.utf16 s)

/-- Two texts compare as their standings do. -/
theorem compareTexts?_eq (a b : String) :
    compareTexts? a b = (standing a).compare? (standing b) := by
  simp only [compareTexts?, standing]
  generalize read a = x
  generalize read b = y
  cases x <;> cases y <;> rfl

/-- A text is numeric if and only if it stands at the place of a number. -/
theorem isNumeric_iff (s : String) : IsNumeric s ↔ (standing s).isLeft = true := by
  rw [IsNumeric, standing]
  cases read s <;> simp [Binary64.isNaN, Binary64.place?]

theorem isLeft_standing_eq_iff :
    (standing a).isLeft = (standing b).isLeft ↔ (IsNumeric a ↔ IsNumeric b) := by
  rw [isNumeric_iff, isNumeric_iff, Bool.eq_iff_iff]

/-! ## Comparisons -/

/-- Whether a comparison holds of two texts. -/
def Holds (f : List String → String) (a b : String) : Prop := f [a, b] = "1"

/-- A comparison holds where it accepts the order of the standings. -/
theorem holds_comparison_iff (accept : Ordering → Bool) (a b : String) :
    Holds (comparison accept) a b ↔
      (accept .lt = true ∧ standing a < standing b) ∨
        (accept .eq = true ∧ standing a = standing b) ∨
        (accept .gt = true ∧ standing b < standing a) := by
  rw [← Standing.any_compare?_iff, ← compareTexts?_eq, Holds, comparison]
  split <;> simp [*]

theorem holds_lt_iff : Holds lt a b ↔ standing a < standing b := by
  simp [lt, holds_comparison_iff]

theorem holds_lte_iff : Holds lte a b ↔ standing a ≤ standing b := by
  simp [lte, holds_comparison_iff, le_iff_lt_or_eq]

theorem holds_eq_iff : Holds eq a b ↔ standing a = standing b := by
  simp [eq, holds_comparison_iff]

theorem holds_gte_iff : Holds gte a b ↔ standing b ≤ standing a := by
  simp [gte, holds_comparison_iff, le_iff_lt_or_eq, eq_comm, or_comm]

theorem holds_gt_iff : Holds gt a b ↔ standing b < standing a := by
  simp [gt, holds_comparison_iff]

/-- Two texts stand at the same place if and only if they are the same or denote equal numbers. -/
theorem standing_eq_iff :
    standing a = standing b ↔ a = b ∨ (read a).compare? (read b) = some .eq := by
  rw [← Standing.compare?_eq_eq_iff, ← compareTexts?_eq]
  constructor
  · intro h
    simp only [compareTexts?] at h
    split at h
    · exact .inr h
    · exact .inl (Text.utf16_injective (Std.LawfulEqCmp.eq_of_compare (Option.some.inj h)))
    · exact absurd h (by simp)
  · rintro (rfl | h)
    · rw [compareTexts?_eq, Standing.compare?_eq_eq_iff]
    · obtain ⟨ha, hb⟩ := Binary64.isNaN_of_compare? h
      simp only [compareTexts?, ha, hb]
      exact h

/-- The laws of an order in which two texts have a place relative to each other if and only if they
    are of one kind. -/
structure OrdersByKind (kind : String → Prop) (lt lte eq gte gt : String → String → Prop) :
    Prop where
  eq_equivalence : Equivalence eq
  lt_irrefl (a : String) : ¬ lt a a
  lt_trans (a b c : String) : lt a b → lt b c → lt a c
  lt_congr (a a' b b' : String) : eq a a' → eq b b' → (lt a b ↔ lt a' b')
  lte_iff (a b : String) : lte a b ↔ lt a b ∨ eq a b
  gt_iff (a b : String) : gt a b ↔ lt b a
  gte_iff (a b : String) : gte a b ↔ lte b a
  exactly_one (a b : String) : (kind a ↔ kind b) →
    (lt a b ∨ eq a b ∨ gt a b) ∧
      ¬ (lt a b ∧ eq a b) ∧ ¬ (eq a b ∧ gt a b) ∧ ¬ (lt a b ∧ gt a b)
  none_holds (a b : String) : ¬ (kind a ↔ kind b) →
    ¬ lt a b ∧ ¬ lte a b ∧ ¬ eq a b ∧ ¬ gte a b ∧ ¬ gt a b

/-- **Order.** The comparisons are those of one order, in which numeric texts have a place relative
    to each other, and so have all others. Two texts are equal in it if and only if they are the
    same or denote equal numbers. -/
theorem comparisons_ordered :
    OrdersByKind IsNumeric (Holds lt) (Holds lte) (Holds eq) (Holds gte) (Holds gt) ∧
    ∀ a b, Holds eq a b ↔ a = b ∨ (read a).compare? (read b) = some .eq := by
  refine ⟨?_, fun a b => ?_⟩
  · exact {
      eq_equivalence := ⟨fun a => holds_eq_iff.mpr rfl,
        fun h => holds_eq_iff.mpr (holds_eq_iff.mp h).symm,
        fun h h' => holds_eq_iff.mpr ((holds_eq_iff.mp h).trans (holds_eq_iff.mp h'))⟩
      lt_irrefl := fun a h => lt_irrefl _ (holds_lt_iff.mp h)
      lt_trans := fun a b c h h' =>
        holds_lt_iff.mpr ((holds_lt_iff.mp h).trans (holds_lt_iff.mp h'))
      lt_congr := fun a a' b b' ha hb => by
        rw [holds_lt_iff, holds_lt_iff, holds_eq_iff.mp ha, holds_eq_iff.mp hb]
      lte_iff := fun a b => by
        rw [holds_lte_iff, holds_lt_iff, holds_eq_iff, le_iff_lt_or_eq]
      gt_iff := fun a b => holds_gt_iff.trans holds_lt_iff.symm
      gte_iff := fun a b => holds_gte_iff.trans holds_lte_iff.symm
      exactly_one := fun a b hkind => by
        rw [holds_lt_iff, holds_eq_iff, holds_gt_iff]
        exact ⟨Standing.lt_or_eq_or_gt (isLeft_standing_eq_iff.mpr hkind), fun h => h.1.ne h.2,
          fun h => h.2.ne h.1.symm, fun h => lt_asymm h.1 h.2⟩
      none_holds := fun a b hkind => by
        have hne : (standing a).isLeft ≠ (standing b).isLeft := mt isLeft_standing_eq_iff.mp hkind
        have hle := Standing.not_le hne
        have hge := Standing.not_le hne.symm
        rw [holds_lt_iff, holds_lte_iff, holds_eq_iff, holds_gte_iff, holds_gt_iff]
        exact ⟨fun h => hle h.le, hle, fun h => hle h.le, hge, fun h => hge h.le⟩ }
  · rw [holds_eq_iff]
    exact standing_eq_iff

/-- Sixteen in two notations is less than a thousand, and neither has a place relative to a word. -/
example : eq ["16", "0x10"] = "1" ∧ lt ["16", "1e3"] = "1" ∧ gte ["16", "ten"] = "0" ∧
    lt ["16", "ten"] = "0" ∧ lt ["😀", "\uffff"] = "1" := by
  decide +kernel

end Builtin

end Formulary
