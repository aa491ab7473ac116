/-
  Formulary.Proofs.Rounding

  Rounding to binary64, seen from the fraction that is rounded.

  `roundUnits` gets a fraction as a numerator and a denominator, but what it gives depends on the
  fraction alone (`roundUnits_eq_nearestUnits`). So every operation that rounds is one rounding
  `nearestUnits q` of a rational number of units, and

    * it is off by at most 2^-53 of the number, and by at most half a unit where the numbers
      have no leading bit (`abs_nearestUnits_sub_le`);
    * a decimal numeral is read as the rounding of the number that it writes down, for any
      exponent (`nearest_eq_ofRat`).
-/

import Mathlib
import Formulary.Decimal.Reading

namespace Formulary

namespace Binary64

/-! ## The fraction decides -/

theorem divToEven_mul_right (num den : Nat) {k : Nat} (hk : 0 < k) :
    divToEven (num * k) (den * k) = divToEven num den := by
  have hlt : den * k < 2 * (num % den * k) ↔ den < 2 * (num % den) := by
    rw [← Nat.mul_assoc]
    exact Nat.mul_lt_mul_right hk
  have heq : den * k = 2 * (num % den * k) ↔ den = 2 * (num % den) := by
    rw [← Nat.mul_assoc]
    exact Nat.mul_left_inj hk.ne'
  simp only [divToEven, Nat.mul_div_mul_right _ _ hk, Nat.mul_mod_mul_right, Bool.or_eq_true,
    Bool.and_eq_true, decide_eq_true_eq, beq_iff_eq, hlt, heq]

/-- A fraction may be expanded. -/
theorem roundUnits_mul_right (num den : Nat) {k : Nat} (hk : 0 < k) :
    roundUnits (num * k) (den * k) = roundUnits num den := by
  have hbits : gridBits (num * k) (den * k) = gridBits num den := by
    rw [gridBits, gridBits, Nat.mul_div_mul_right _ _ hk]
  simp only [roundUnits, hbits]
  rw [Nat.mul_right_comm den k, divToEven_mul_right _ _ hk]

/-- The magnitude nearest to a rational number of units, the range of exponents left aside. -/
def nearestUnits (q : ℚ) : Nat := roundUnits q.num.toNat q.den

/-- **Rounding.** What a fraction is rounded to depends on its value. -/
theorem roundUnits_eq_nearestUnits (num : Nat) {den : Nat} (hden : 0 < den) :
    roundUnits num den = nearestUnits (num / den) := by
  obtain ⟨c, hnum, hc⟩ := Rat.exists_eq_mul_div_num_and_eq_mul_div_den (num : ℤ)
    (Int.natCast_ne_zero.mpr hden.ne')
  rw [Int.cast_natCast, Int.cast_natCast] at hnum hc
  set q : ℚ := (num : ℚ) / den with hq
  have hqpos : 0 ≤ q.num := Rat.num_nonneg.mpr (by positivity)
  have hcpos : 0 < c := by
    have hdenpos : 0 < (q.den : ℤ) := Int.natCast_pos.mpr q.den_pos
    have hprod : 0 < c * (q.den : ℤ) := hc ▸ Int.natCast_pos.mpr hden
    exact pos_of_mul_pos_left hprod hdenpos.le
  -- The numerator and the denominator are those of the number, times the same factor.
  obtain ⟨k, rfl⟩ := Int.eq_ofNat_of_zero_le hcpos.le
  have hk : 0 < k := Int.natCast_pos.mp hcpos
  have hnum' : num = q.num.toNat * k := by
    rw [Nat.mul_comm]
    zify
    rw [Int.toNat_of_nonneg hqpos]
    exact hnum
  have hden' : den = q.den * k := by
    rw [Nat.mul_comm]
    exact_mod_cast hc
  rw [hnum', hden', roundUnits_mul_right _ _ hk, nearestUnits]

theorem nearestUnits_natCast {u : Nat} (hu : Nat.pow 2 (u.log2 - 52) ∣ u) :
    nearestUnits u = u := by
  have h := roundUnits_mul hu Nat.one_pos
  rwa [Nat.mul_one, roundUnits_eq_nearestUnits u Nat.one_pos, Nat.cast_one, div_one] at h

/-! ## How far off it is -/

/-- A quotient is off by at most a half. -/
theorem abs_divToEven_sub_le (num : Nat) {den : Nat} (hden : 0 < den) :
    |(divToEven num den : ℚ) - num / den| ≤ 1 / 2 := by
  have hdenq : (0 : ℚ) < den := Nat.cast_pos.mpr hden
  have hmod := Nat.div_add_mod num den
  have hrest := Nat.mod_lt num hden
  -- Over the common denominator the two differ by at most half of it.
  have hboth : 2 * (den * divToEven num den) ≤ 2 * num + den ∧
      2 * num ≤ 2 * (den * divToEven num den) + den := by
    rw [divToEven_eq]
    split
    · rw [Nat.mul_add, Nat.mul_one]
      omega
    · omega
  have hle : (2 : ℚ) * (den * divToEven num den) ≤ 2 * num + den := by exact_mod_cast hboth.1
  have hge : (2 : ℚ) * num ≤ 2 * (den * divToEven num den) + den := by exact_mod_cast hboth.2
  have hnum : (num : ℚ) = num / den * den := (div_mul_cancel₀ _ hdenq.ne').symm
  rw [abs_le]
  constructor
  · nlinarith
  · nlinarith

/-- The grid of a number is fine: its distance is at most 2^-52 of the number, or one unit. -/
theorem two_pow_gridBits_le {num den : Nat} {s : ℚ} (hs : 2 ^ 52 ≤ s) (h : (num : ℚ) / den ≤ s) :
    (2 : ℚ) ^ gridBits num den * 2 ^ 52 ≤ s := by
  rw [gridBits]
  by_cases hlog : (num / den).log2 ≤ 52
  · rwa [Nat.sub_eq_zero_of_le hlog, pow_zero, one_mul]
  · have hne : num / den ≠ 0 := by
      intro h0
      rw [h0] at hlog
      exact hlog (by decide)
    have hpow : 2 ^ ((num / den).log2 - 52) * 2 ^ 52 ≤ num / den := by
      rw [← Nat.pow_add, Nat.sub_add_cancel (by omega)]
      exact Nat.log2_self_le hne
    refine le_trans ?_ (Nat.cast_div_le.trans h)
    exact_mod_cast hpow

/-- On a grid all distances are those of whole numbers. -/
theorem abs_mul_two_pow_sub (num : Nat) {den : Nat} (hden : 0 < den) (c b : Nat) :
    |((c * 2 ^ b : ℕ) : ℚ) - num / den| = |(c : ℚ) - num / (den * 2 ^ b : ℕ)| * 2 ^ b := by
  have hdenq : (den : ℚ) ≠ 0 := Nat.cast_ne_zero.mpr hden.ne'
  have hpow : (0 : ℚ) < 2 ^ b := by positivity
  have hsub : ((c * 2 ^ b : ℕ) : ℚ) - num / den = (c - num / (den * 2 ^ b : ℕ)) * 2 ^ b := by
    push_cast
    field_simp
  rw [hsub, abs_mul, abs_of_pos hpow]

theorem roundUnits_eq (num den : Nat) : roundUnits num den =
    divToEven num (den * 2 ^ gridBits num den) * 2 ^ gridBits num den := by
  simp only [roundUnits, Nat.pow_eq]

theorem abs_roundUnits_sub_le {num den : Nat} (hden : 0 < den) {s : ℚ} (hs : 2 ^ 52 ≤ s)
    (h : (num : ℚ) / den ≤ s) : |(roundUnits num den : ℚ) - num / den| ≤ s / 2 ^ 53 := by
  have hgrid := two_pow_gridBits_le hs h
  rw [roundUnits_eq, abs_mul_two_pow_sub num hden]
  generalize gridBits num den = b at hgrid
  have hhalf := abs_divToEven_sub_le num (Nat.mul_pos hden (Nat.two_pow_pos b))
  calc |(divToEven num (den * 2 ^ b) : ℚ) - num / (den * 2 ^ b : Nat)| * 2 ^ b
      ≤ 1 / 2 * 2 ^ b := by gcongr
    _ = 2 ^ b * 2 ^ 52 / 2 ^ 53 := by ring
    _ ≤ s / 2 ^ 53 := by gcongr

/-- **Accuracy.** A rounded number of units is off by at most 2^-53 of it, or of 2^52 units if it
    is less. -/
theorem abs_nearestUnits_sub_le {q s : ℚ} (hq : 0 ≤ q) (hs : 2 ^ 52 ≤ s) (h : q ≤ s) :
    |(nearestUnits q : ℚ) - q| ≤ s / 2 ^ 53 := by
  have hnum : ((q.num.toNat : ℕ) : ℚ) = q.num := by
    exact_mod_cast Int.toNat_of_nonneg (Rat.num_nonneg.mpr hq)
  have hvalue : ((q.num.toNat : ℕ) : ℚ) / q.den = q := by
    rw [hnum]
    exact Rat.num_div_den q
  have hoff := abs_roundUnits_sub_le q.den_pos hs (hvalue.le.trans h)
  rwa [hvalue] at hoff

/-- Less than half a unit is rounded to zero. -/
theorem nearestUnits_of_lt_half {q : ℚ} (hq : 0 ≤ q) (h : q < 1 / 2) : nearestUnits q = 0 := by
  have hoff := (abs_le.mp (abs_nearestUnits_sub_le (s := 2 ^ 52) hq le_rfl (by linarith))).2
  have hlt : (nearestUnits q : ℚ) < 1 := by linarith
  exact Nat.lt_one_iff.mp (by exact_mod_cast hlt)

theorem nearestUnits_zero : nearestUnits 0 = 0 := nearestUnits_of_lt_half le_rfl (by norm_num)

/-! ## Order -/

/-- A whole number of units is rounded on the grid of its own length. -/
theorem nearestUnits_eq_divToEven (v : Nat) :
    nearestUnits v = divToEven v (2 ^ (v.log2 - 52)) * 2 ^ (v.log2 - 52) := by
  have hround := roundUnits_eq_nearestUnits v Nat.one_pos
  rw [Nat.cast_one, div_one, roundUnits_eq, gridBits, Nat.div_one, Nat.one_mul] at hround
  exact hround.symm

variable {v w : Nat}

theorem log2_mono (h : v ≤ w) : v.log2 ≤ w.log2 := by
  rw [Nat.log2_eq_log_two, Nat.log2_eq_log_two]
  exact Nat.log_mono_right h

/-! ## Numbers -/

/-- The number nearest to a rational number of units. -/
def ofRat (negative : Bool) (q : ℚ) : Binary64 := ofRatio negative q.num.toNat q.den

/-- Numbers of units that are rounded to the same magnitude give the same number. -/
theorem ofRat_congr (negative : Bool) {p q : ℚ} (h : nearestUnits p = nearestUnits q) :
    ofRat negative p = ofRat negative q := by
  rw [nearestUnits, nearestUnits] at h
  simp only [ofRat, ofRatio, h]

theorem ofRatio_eq_ofRat (negative : Bool) (num : Nat) {den : Nat} (hden : 0 < den) :
    ofRatio negative num den = ofRat negative (num / den) := by
  have h := roundUnits_eq_nearestUnits num hden
  rw [nearestUnits] at h
  simp only [ofRat, ofRatio, h]

theorem ofUnits_eq_ofRat (negative : Bool) (u : Nat) : ofUnits negative u = ofRat negative u := by
  rw [ofUnits, ofRatio_eq_ofRat negative u Nat.one_pos, Nat.cast_one, div_one]

theorem representable_nearestUnits {q : ℚ} (h : nearestUnits q < bound) :
    Representable (nearestUnits q) := ⟨h, roundUnits_dvd _ _⟩

theorem ofRat_of_lt (negative : Bool) {q : ℚ} (h : nearestUnits q < bound) :
    ofRat negative q = .finite negative (nearestUnits q) (representable_nearestUnits h) := by
  rw [nearestUnits] at h
  simp only [ofRat, ofRatio, h, ↓reduceDIte, nearestUnits]

theorem ofRat_of_le (negative : Bool) {q : ℚ} (h : bound ≤ nearestUnits q) :
    ofRat negative q = .infinite negative := by
  have hlt : ¬roundUnits q.num.toNat q.den < bound := Nat.not_lt.mpr h
  simp only [ofRat, ofRatio, hlt, ↓reduceDIte]

theorem bound_eq : (bound : ℚ) = 2 ^ 1024 * 2 ^ unitBits := by
  simp only [bound, Nat.pow_eq, pow_add, Nat.cast_mul, Nat.cast_pow, Nat.cast_ofNat]

theorem two_pow_succ_mul (k : Nat) (q : ℚ) : 2 ^ (k + 1) * q = 2 * (2 ^ k * q) := by ring

theorem two_pow_le_units {n k : Nat} (h : n ≤ k + unitBits) :
    (2 : ℚ) ^ n ≤ 2 ^ k * 2 ^ unitBits := by
  rw [← pow_add]
  exact pow_le_pow_right₀ one_le_two h

end Binary64

namespace Decimal

open Binary64

/-- The rational number that a decimal is, in units. -/
def unitsOf (digits : Nat) (exponent : Int) : ℚ := digits * 10 ^ exponent * 2 ^ unitBits

theorem unitsOf_nonneg (digits : Nat) (exponent : Int) : 0 ≤ unitsOf digits exponent := by
  rw [unitsOf]
  positivity

theorem unitsOf_zero (exponent : Int) : unitsOf 0 exponent = 0 := by
  rw [unitsOf, Nat.cast_zero, zero_mul, zero_mul]

/-- Zeros behind the digits count as powers of ten. -/
theorem unitsOf_mul_pow (digits : Nat) (exponent : Int) (k : Nat) :
    unitsOf (digits * 10 ^ k) exponent = unitsOf digits (exponent + k) := by
  rw [unitsOf, unitsOf, Nat.cast_mul, Nat.cast_pow, zpow_add₀ (by norm_num), zpow_natCast]
  push_cast
  ring

/-- Places are digits behind a power of ten that divides. -/
theorem unitsOf_neg (digits places : Nat) :
    unitsOf digits (-places) = digits * 2 ^ unitBits / 10 ^ places := by
  rw [unitsOf, zpow_neg, zpow_natCast]
  ring

theorem two_pow_le_ten_pow {k n : Nat} (h : k ≤ 3 * n) : (2 : ℚ) ^ k ≤ 10 ^ n := by
  calc (2 : ℚ) ^ k ≤ 2 ^ (3 * n) := pow_le_pow_right₀ one_le_two h
    _ = (2 ^ 3) ^ n := pow_mul 2 3 n
    _ ≤ 10 ^ n := pow_le_pow_left₀ (by norm_num) (by norm_num) n

/-- From 10^400 on, every number is infinite. -/
theorem bound_le_nearestUnits {digits : Nat} {exponent : Int} (hdigits : digits ≠ 0)
    (h : 400 ≤ exponent) : bound ≤ nearestUnits (unitsOf digits exponent) := by
  have hone : (1 : ℚ) ≤ digits := by exact_mod_cast Nat.one_le_iff_ne_zero.mpr hdigits
  have hpow : (10 : ℚ) ^ (400 : ℤ) ≤ 10 ^ exponent := zpow_le_zpow_right₀ (by norm_num) h
  have hten : (2 : ℚ) ^ 1025 ≤ 10 ^ (400 : ℤ) := by
    rw [zpow_ofNat]
    exact two_pow_le_ten_pow (by decide)
  have hdouble : 2 * (bound : ℚ) ≤ unitsOf digits exponent := by
    calc 2 * (bound : ℚ) = 2 ^ 1025 * 2 ^ unitBits := by rw [bound_eq, two_pow_succ_mul 1024]
      _ ≤ 1 * 10 ^ exponent * 2 ^ unitBits := by rw [one_mul]; gcongr; exact hten.trans hpow
      _ ≤ unitsOf digits exponent := by rw [unitsOf]; gcongr
  have hfine : (2 : ℚ) ^ 52 ≤ bound := bound_eq ▸ two_pow_le_units (by decide)
  have hoff := (abs_le.mp (abs_nearestUnits_sub_le (unitsOf_nonneg digits exponent)
    (by linarith) le_rfl)).1
  have hle : (bound : ℚ) ≤ nearestUnits (unitsOf digits exponent) := by linarith
  exact_mod_cast hle

/-- Far below half a unit, every number is zero. -/
theorem nearestUnits_of_small {digits : Nat} {exponent : Int}
    (h : exponent + 400 + digits.log2 < 0) : nearestUnits (unitsOf digits exponent) = 0 := by
  refine nearestUnits_of_lt_half (unitsOf_nonneg _ _) ?_
  set l := digits.log2 with hl
  have hdigits : (digits : ℚ) ≤ 2 * 10 ^ l := by
    have hlt : (digits : ℚ) < 2 ^ (l + 1) := by exact_mod_cast (Nat.lt_log2_self : digits < _)
    have hten : (2 : ℚ) ^ l ≤ 10 ^ l := pow_le_pow_left₀ (by norm_num) (by norm_num) l
    rw [pow_succ] at hlt
    linarith
  have hpow : (10 : ℚ) ^ exponent ≤ 10 ^ (-(401 : ℤ) - l) :=
    zpow_le_zpow_right₀ (by norm_num) (by omega)
  have hunits : unitsOf digits exponent ≤ 2 * 10 ^ l * 10 ^ (-(401 : ℤ) - l) * 2 ^ unitBits := by
    rw [unitsOf]
    gcongr
  refine lt_of_le_of_lt hunits ?_
  -- What is left is far below half of a unit: 10^401 is more than eight times 2^1074.
  have hcancel : (2 : ℚ) * 10 ^ l * 10 ^ (-(401 : ℤ) - l) * 2 ^ unitBits =
      2 * 2 ^ unitBits / 10 ^ 401 := by
    rw [zpow_sub₀ (by norm_num), zpow_neg, zpow_natCast]
    field_simp
  have hten : (2 : ℚ) ^ unitBits * 2 ^ 3 ≤ 10 ^ 401 := by
    rw [← pow_add]
    exact two_pow_le_ten_pow (by decide)
  have hunit : (0 : ℚ) < 2 ^ unitBits := by positivity
  rw [hcancel, div_lt_div_iff₀ (by positivity) (by norm_num)]
  rw [one_mul]
  generalize (2 : ℚ) ^ unitBits = one at hten hunit ⊢
  generalize (10 : ℚ) ^ 401 = ten at hten ⊢
  linarith only [hten, hunit]

/-- **Reading.** A decimal is read as the number nearest to it, whatever its exponent is. -/
theorem nearest_eq_ofRat (negative : Bool) (digits : Nat) (exponent : Int) :
    nearest negative digits exponent = ofRat negative (unitsOf digits exponent) := by
  have hzero : signedZero negative = ofRat negative 0 := by
    rw [signedZero, ofUnits_eq_ofRat, Nat.cast_zero]
  -- The shortcuts for zero, for huge and for tiny numbers agree with rounding the exact value.
  rw [nearest]
  split
  · next h =>
    rw [h, unitsOf_zero, hzero]
  · next hdigits =>
    split
    · next h => exact (ofRat_of_le negative (bound_le_nearestUnits hdigits h)).symm
    · split
      · next h =>
        rw [hzero]
        exact ofRat_congr negative (nearestUnits_zero.trans (nearestUnits_of_small h).symm)
      · split
        · next h =>
          obtain ⟨e, rfl⟩ := Int.eq_ofNat_of_zero_le h
          rw [ofUnits_eq_ofRat, unitsOf]
          simp only [Nat.pow_eq, Int.toNat_natCast, zpow_natCast]
          push_cast
          rfl
        · next h =>
          obtain ⟨e, he⟩ := Int.eq_ofNat_of_zero_le (by omega : 0 ≤ -exponent)
          obtain rfl : exponent = -e := by omega
          have hden : 0 < Nat.pow 10 e := Nat.pow_pos (by decide)
          rw [neg_neg, Int.toNat_natCast, ofRatio_eq_ofRat _ _ hden, unitsOf_neg]
          simp only [Nat.pow_eq]
          push_cast
          rfl

end Decimal

end Formulary
