/-
  Formulary.Proofs.ShortestDigits

  The digits that a number is printed with.

  Whatever `shortest` finds is read back as the magnitude that it was found for, and it does not
  lie on the other side of a power of ten below the magnitude (`shortens_shortest`). The search
  may end with a neighbour on either side, or with the magnitude itself in all its digits.
-/

import Formulary.Decimal.Shortest
import Formulary.Proofs.Rounding

namespace Formulary

namespace Decimal

open Binary64 (nearestUnits unitBits)

/-! ## Zeros behind the digits -/

theorem dropZeros_mul (n : Nat) : (dropZeros n).1 * 10 ^ (dropZeros n).2 = n := by
  fun_induction dropZeros n with
  | case1 n h m k heq ih =>
    rw [heq] at ih
    simp only at ih ⊢
    rw [pow_succ, ← Nat.mul_assoc, ih]
    omega
  | case2 n h => rw [pow_zero, mul_one]

theorem dropZeros_mod_ne_zero {n : Nat} (hn : n ≠ 0) : (dropZeros n).1 % 10 ≠ 0 := by
  fun_induction dropZeros n with
  | case1 n h m k heq ih =>
    have hne := ih (by omega)
    rwa [heq] at hne
  | case2 n h =>
    simp only
    omega

theorem unitsOf_normalized (digits : Nat) (exponent : Int) :
    unitsOf (normalized digits exponent).1 (normalized digits exponent).2 =
      unitsOf digits exponent := by
  rw [normalized, ← unitsOf_mul_pow, dropZeros_mul]

/-- A decimal is below the power of ten with one digit more. -/
theorem unitsOf_lt (digits : Nat) (exponent : Int) :
    unitsOf digits exponent < 10 ^ (((Nat.toDigits 10 digits).length : Int) + exponent) *
      2 ^ unitBits := by
  have hlt : digits < 10 ^ (Nat.toDigits 10 digits).length :=
    (Nat.length_toDigits_le_iff (by decide) Nat.length_toDigits_pos).mp le_rfl
  have hltq : (digits : ℚ) < 10 ^ (Nat.toDigits 10 digits).length := by exact_mod_cast hlt
  rw [unitsOf, zpow_add₀ (by norm_num), zpow_natCast]
  gcongr

/-! ## What is found -/

/-- A decimal for the magnitude `u`: it is read back as `u`, and it is not below a power of ten
    that `u` is not below. -/
structure Shortens (u : Nat) (digits : Nat) (exponent : Int) : Prop where
  reads : nearestUnits (unitsOf digits exponent) = u
  le : ∀ k : Nat, 10 ^ k * 2 ^ unitBits ≤ u → (10 : ℚ) ^ k * 2 ^ unitBits ≤ unitsOf digits exponent

variable {u : Nat}

theorem nearestUnits_of_readsBack {digits : Nat} {exponent : Int}
    (h : readsBack u exponent digits = true) : nearestUnits (unitsOf digits exponent) = u := by
  rw [readsBack, nearest_eq_ofRat, beq_iff_eq] at h
  by_cases hlt : nearestUnits (unitsOf digits exponent) < Binary64.bound
  · rw [Binary64.ofRat_of_lt false hlt] at h
    have hunits := Option.some.inj h
    rw [if_neg Bool.false_ne_true] at hunits
    exact Int.ofNat.inj hunits
  · rw [Binary64.ofRat_of_le false (Nat.not_lt.mp hlt)] at h
    exact nomatch h

/-- A number has one digit more than the greatest power of ten that it is not below. -/
theorem pow_length_toDigits_le {n : Nat} (hn : 0 < n) :
    10 ^ ((Nat.toDigits 10 n).length - 1) ≤ n := by
  rcases Nat.eq_zero_or_pos ((Nat.toDigits 10 n).length - 1) with hone | hmore
  · rw [hone, pow_zero]
    exact hn
  · by_contra hlt
    have hlen := (Nat.length_toDigits_le_iff (by decide) hmore).mpr (Nat.not_le.mp hlt)
    omega

theorem lt_length_toDigits {n k : Nat} (h : 10 ^ k ≤ n) : k < (Nat.toDigits 10 n).length := by
  by_contra hle
  rcases Nat.eq_zero_or_pos k with rfl | hk
  · exact hle Nat.length_toDigits_pos
  · have hlt := (Nat.length_toDigits_le_iff (b := 10) (by decide) hk).mp (Nat.not_lt.mp hle)
    exact absurd h (Nat.not_le.mpr hlt)

/-- The count of the digits of a number tells the powers of ten that it lies between. -/
theorem exists_length_toDigits {n : Nat} (hn : 0 < n) :
    ∃ k, (Nat.toDigits 10 n).length = k + 1 ∧ 10 ^ k ≤ n ∧ n < 10 ^ (k + 1) := by
  obtain ⟨k, hk⟩ := Nat.exists_eq_add_one.mpr (Nat.length_toDigits_pos (b := 10) (n := n))
  have hlow := pow_length_toDigits_le hn
  have hhigh := (Nat.length_toDigits_le_iff (by decide) (Nat.succ_pos k)).mp hk.le
  rw [hk, Nat.add_sub_cancel] at hlow
  exact ⟨k, hk, hlow, hhigh⟩

/-- The leading place of a magnitude is that of the greatest power of ten not above it. -/
theorem exists_leadingPlace {k : Nat} (h : 10 ^ k * 2 ^ unitBits ≤ u) :
    ∃ place : Nat, leadingPlace u = place + 1 ∧ k ≤ place ∧ 10 ^ place * 2 ^ unitBits ≤ u := by
  have hunit : 0 < 2 ^ unitBits := Nat.two_pow_pos _
  have hwhole : 10 ^ k ≤ u / 2 ^ unitBits := (Nat.le_div_iff_mul_le hunit).mpr h
  have hpos : 0 < u / 2 ^ unitBits := (Nat.pow_pos (by decide)).trans_le hwhole
  have hlen := lt_length_toDigits hwhole
  obtain ⟨place, hlength, hlow, -⟩ := exists_length_toDigits hpos
  refine ⟨place, ?_, by omega, (Nat.le_div_iff_mul_le hunit).mp hlow⟩
  simp only [leadingPlace, Nat.pow_eq, if_pos hpos, hlength, Nat.cast_succ]

/-- What is below a magnitude as a multiple of a power of ten is not below a greater power. -/
theorem pow_le_scaled {place i : Nat} (h : 10 ^ place * 2 ^ unitBits ≤ u) :
    10 ^ i ≤ (scaled u ((place : Int) - i)).1 / (scaled u ((place : Int) - i)).2 := by
  rw [scaled]
  split
  · next hle =>
    obtain ⟨e, rfl⟩ : ∃ e, place = i + e := ⟨place - i, by omega⟩
    have he : ((i + e : Nat) : Int) - i = e := by omega
    rw [he, Int.toNat_natCast]
    simp only [Nat.pow_eq]
    refine (Nat.le_div_iff_mul_le (by positivity)).mpr ?_
    calc 10 ^ i * (2 ^ unitBits * 10 ^ e) = 10 ^ (i + e) * 2 ^ unitBits := by ring
      _ ≤ u := h
  · next hlt =>
    obtain ⟨e, rfl⟩ : ∃ e, i = place + e := ⟨i - place, by omega⟩
    have he : -((place : Int) - (place + e : Nat)) = e := by omega
    rw [he, Int.toNat_natCast]
    simp only [Nat.pow_eq]
    refine (Nat.le_div_iff_mul_le (by positivity)).mpr ?_
    calc 10 ^ (place + e) * 2 ^ unitBits = 10 ^ place * 2 ^ unitBits * 10 ^ e := by ring
      _ ≤ u * 10 ^ e := Nat.mul_le_mul_right _ h

/-- A neighbour is read back and is not below the multiple that is below the magnitude. -/
theorem neighbour?_spec {exponent : Int} {digits : Nat} (h : neighbour? u exponent = some digits) :
    readsBack u exponent digits = true ∧
      (scaled u exponent).1 / (scaled u exponent).2 ≤ digits := by
  have habove : (scaled u exponent).1 / (scaled u exponent).2 ≤
      if (scaled u exponent).1 % (scaled u exponent).2 = 0 then
        (scaled u exponent).1 / (scaled u exponent).2
      else (scaled u exponent).1 / (scaled u exponent).2 + 1 := by
    split <;> omega
  simp only [neighbour?] at h
  split at h
  · exact nomatch h
  · next hbelow _ =>
    obtain rfl := Option.some.inj h
    exact ⟨hbelow, le_rfl⟩
  · next _ hread =>
    obtain rfl := Option.some.inj h
    exact ⟨hread, habove⟩
  · next hbelow hread =>
    obtain rfl := Option.some.inj h
    -- Both are read back, so it does not matter which of them is nearer.
    by_cases hhalf : 2 * ((scaled u exponent).1 % (scaled u exponent).2) < (scaled u exponent).2
    · rw [if_pos hhalf]
      exact ⟨hbelow, le_rfl⟩
    · rw [if_neg hhalf]
      exact ⟨hread, habove⟩

theorem Shortens.normalized {digits : Nat} {exponent : Int} (h : Shortens u digits exponent) :
    Shortens u (normalized digits exponent).1 (normalized digits exponent).2 := by
  refine ⟨?_, fun k hk => ?_⟩
  · rw [unitsOf_normalized, h.reads]
  · rw [unitsOf_normalized]
    exact h.le k hk

theorem shortens_neighbour {i digits : Nat}
    (h : neighbour? u (leadingPlace u - (i + 1 : Nat)) = some digits) :
    Shortens u digits (leadingPlace u - (i + 1 : Nat)) := by
  obtain ⟨hread, hle⟩ := neighbour?_spec h
  refine ⟨nearestUnits_of_readsBack hread, fun k hk => ?_⟩
  obtain ⟨place, hplace, hkplace, hpow⟩ := exists_leadingPlace hk
  have hexp : leadingPlace u - (i + 1 : Nat) = (place : Int) - i := by omega
  rw [hexp] at hle ⊢
  have hdigits : (10 : ℚ) ^ i ≤ digits := by exact_mod_cast (pow_le_scaled hpow).trans hle
  rw [unitsOf]
  -- A power of ten below the magnitude is not above the leading one, which the digits reach.
  have hten : (10 : ℚ) ^ k ≤ digits * 10 ^ ((place : Int) - i) := by
    calc (10 : ℚ) ^ k ≤ 10 ^ place := pow_le_pow_right₀ (by norm_num) hkplace
      _ = 10 ^ i * 10 ^ ((place : Int) - i) := by
        rw [← zpow_natCast, ← zpow_natCast, ← zpow_add₀ (by norm_num)]
        congr 1
        omega
      _ ≤ digits * 10 ^ ((place : Int) - i) := by gcongr
  gcongr

/-- A magnitude in all its digits is a decimal. -/
theorem unitsOf_all (u : Nat) : unitsOf (u * Nat.pow 5 unitBits) (-(unitBits : Int)) = u := by
  have hten : (10 : ℚ) ^ unitBits = 5 ^ unitBits * 2 ^ unitBits := by
    rw [← mul_pow]
    norm_num
  rw [unitsOf_neg, hten, Nat.pow_eq]
  generalize unitBits = b
  push_cast
  field_simp

theorem shortens_all (hu : Representable u) :
    Shortens u (u * Nat.pow 5 unitBits) (-(unitBits : Int)) := by
  refine ⟨?_, fun k hk => ?_⟩
  · rw [unitsOf_all, Binary64.nearestUnits_natCast hu.2]
  · rw [unitsOf_all]
    exact_mod_cast hk

/-- What is found is a neighbour or the magnitude in all its digits, without zeros at the end. -/
theorem shortest_eq (u : Nat) :
    (∃ i digits, neighbour? u (leadingPlace u - (i + 1 : Nat)) = some digits ∧
      shortest u = normalized digits (leadingPlace u - (i + 1 : Nat))) ∨
    shortest u = normalized (u * Nat.pow 5 unitBits) (-(unitBits : Int)) := by
  rcases Option.getD_eq_iff.mp (Eq.refl (shortest u)) with hsome | ⟨-, hall⟩
  · obtain ⟨i, -, hi⟩ := List.exists_of_findSome?_eq_some hsome
    obtain ⟨digits, hdigits, hd⟩ := Option.map_eq_some_iff.mp hi
    exact .inl ⟨i, digits, hdigits, hd.symm⟩
  · exact .inr hall.symm

/-- **Digits.** What is found for a magnitude is read back as the magnitude, and the same powers of
    ten are below it. -/
theorem shortens_shortest (hu : Representable u) : Shortens u (shortest u).1 (shortest u).2 := by
  rcases shortest_eq u with ⟨i, digits, hdigits, heq⟩ | heq
  · rw [heq]
    exact (shortens_neighbour hdigits).normalized
  · rw [heq]
    exact (shortens_all hu).normalized

end Decimal

end Formulary
