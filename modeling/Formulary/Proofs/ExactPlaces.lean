/-
  Formulary.Proofs.ExactPlaces

  What a number with fixed places is.

  `printFixed` never computes with the number: it cuts and counts up digits. For every number
  below 10^21 and every number of places, the text it writes is the decimal of the exact binary
  number, rounded once to the nearest multiple of 10^-places, a half away from zero, and in the
  one form that `IsExpansion` allows.
-/

import Formulary.Proofs.FixedPlaces

namespace Formulary

namespace Decimal

open Binary64 (abs_toRat toRat_neg_iff unitBits)

variable {negative : Bool} {u : Nat}

/-- The text is the decimal of `n / 10^places`: `places` digits behind the point, and in front of
    it one digit at least and no zero in front of another one. Without places there is no point. -/
def IsExpansion (cs : List Char) (n places : Nat) : Prop :=
  ∃ ws fs, cs = ws ++ (if places = 0 then [] else '.' :: fs) ∧
    AllDigits ws ∧ ws ≠ [] ∧ (ws.head? = some '0' → ws = ['0']) ∧
    AllDigits fs ∧ fs.length = places ∧ digitsValue (ws ++ fs) = n

/-- A number that starts with a zero is less than one with as many digits that does not. -/
theorem digitsValue_zero_lt {cs : List Char} (h : AllDigits cs) :
    digitsValue ('0' :: cs) < 10 ^ cs.length := by
  have hzero : digitsValue ['0'] = 0 := rfl
  have hcons := digitsValue_append ['0'] cs
  rw [hzero, Nat.zero_mul, Nat.zero_add, List.singleton_append] at hcons
  rw [hcons]
  exact digitsValue_lt h

theorem isExpansion_withPlaces (n places : Nat) : IsExpansion (withPlaces n places) n places := by
  obtain ⟨ds, hpadded, hvalue, hwith⟩ := exists_padded n places
  have hlength := hpadded.length
  have hplaced := placed_of_allDigits hpadded.digits hlength
  refine ⟨_, _, ?_, hplaced.whole, hplaced.ne_nil, fun hhead => ?_, hplaced.behind,
    hplaced.length, hplaced.value.trans hvalue⟩
  · rw [hwith, withPoint]
    split
    · exact (List.append_nil _).symm
    · rfl
  · -- With a zero in front the digits are as few as they can be.
    obtain ⟨cs, hcs⟩ : ∃ cs, ds = '0' :: cs := by
      rw [List.head?_take, if_neg (by omega)] at hhead
      obtain ⟨cs, hcs⟩ := List.head?_eq_some_iff.mp hhead
      exact ⟨cs, hcs⟩
    have hshort : ds.length ≤ places + 1 := by
      by_contra hlong
      have hfirst := hpadded.first (Nat.not_le.mp hlong)
      have hdigits : AllDigits cs := fun d hd => hpadded.digits d (hcs ▸ List.mem_cons_of_mem _ hd)
      have hlt := digitsValue_zero_lt hdigits
      rw [hcs, List.length_cons, Nat.add_sub_cancel] at hfirst
      omega
    have hone : ds.length - places = 1 := by omega
    rw [hone, hcs]
    rfl

/-- The nearest multiple of 10^-places, a half upwards. -/
theorem roundedPlaces_eq_floor (u places : Nat) :
    roundedPlaces u places = ⌊(u : ℚ) / 2 ^ unitBits * 10 ^ places + 1 / 2⌋₊ := by
  have hunit : (0 : ℚ) < 2 ^ unitBits := by positivity
  have hquotient : (u : ℚ) / 2 ^ unitBits * 10 ^ places + 1 / 2 =
      (2 * u * 10 ^ places + 2 ^ unitBits : Nat) / (2 * 2 ^ unitBits : Nat) := by
    push_cast
    generalize (2 : ℚ) ^ unitBits = one at hunit ⊢
    field_simp
  rw [hquotient, Nat.floor_div_eq_div, roundedPlaces, Nat.pow_eq, Nat.pow_eq]

theorem lt_fixedLimit_iff (negative : Bool) (hu : Representable u) :
    |(Binary64.finite negative u hu).toRat| < 10 ^ 21 ↔ u < fixedLimit := by
  have hunit : (0 : ℚ) < 2 ^ unitBits := by positivity
  rw [abs_toRat, div_lt_iff₀ hunit, fixedLimit_eq]
  exact_mod_cast Iff.rfl

/-- **Fixed places.** A number below 10^21 is written as its sign and the decimal of the nearest
    multiple of 10^-places, a half away from zero, where `places` counts from 0 to 100. -/
theorem printFixed_exact (negative : Bool) (hu : Representable u) (places : ℤ)
    (h : |(Binary64.finite negative u hu).toRat| < 10 ^ 21) :
    let x := Binary64.finite negative u hu
    let d := (max 0 (min places 100)).toNat
    ∃ cs, IsExpansion cs ⌊|x.toRat| * 10 ^ d + 1 / 2⌋₊ d ∧
      (printFixed x places).toList = (if x.toRat < 0 then ['-'] else []) ++ cs := by
  intro x d
  have hd : min places.toNat 100 = d := by omega
  refine ⟨withPlaces (roundedPlaces u d) d, ?_, ?_⟩
  · rw [abs_toRat, ← roundedPlaces_eq_floor]
    exact isExpansion_withPlaces _ _
  · rw [printFixed_of_lt hu places ((lt_fixedLimit_iff negative hu).mp h), String.toList_ofList, hd,
      withSign]
    congr 1
    simp only [x, toRat_neg_iff, Bool.and_eq_true, decide_eq_true_eq]

/-- The half of `-9.5` is rounded away from zero, and the carry gives the number one more digit. -/
theorem printFixed_exact_carry :
    ∃ hu : Representable (19 * Nat.pow 2 1073),
      |(Binary64.finite true (19 * Nat.pow 2 1073) hu).toRat| < 10 ^ 21 ∧
      ∃ cs, IsExpansion cs 10 0 ∧
        (printFixed (.finite true (19 * Nat.pow 2 1073) hu) (-3)).toList = '-' :: cs := by
  have hu : Representable (19 * Nat.pow 2 1073) := by decide +kernel
  have hsmall : ((19 * Nat.pow 2 1073 : Nat) : ℚ) / 2 ^ unitBits < 10 ^ 21 := by decide +kernel
  have hfloor : ⌊((19 * Nat.pow 2 1073 : Nat) : ℚ) / 2 ^ unitBits * 10 ^ 0 + 1 / 2⌋₊ = 10 := by
    decide +kernel
  rw [← abs_toRat true hu] at hsmall hfloor
  obtain ⟨cs, hcs, htext⟩ := printFixed_exact true hu (-3) hsmall
  refine ⟨hu, hsmall, cs, hfloor ▸ hcs, ?_⟩
  rw [htext, if_pos ((toRat_neg_iff true hu).mpr ⟨rfl, by decide +kernel⟩)]
  rfl

end Decimal

end Formulary
