/-
  Formulary.Proofs.RoundedDecimals

  Decimals that are rounded already.

  A decimal below 100000 with at most ten places is `n / 10^d` for a whole number `n`. Binary
  numbers only come near it, but the nearest one is off by much less than half of 10^-d, and so
  is the result of one operation more (`abs_nearestUnits_mul_sub_le`). `round` looks for the
  nearest multiple of 10^-d and finds the decimal again. `ceil` and `floor` look for the next
  one above or below the product with 10^d, which may be off to either side: they find the
  decimal if the product is not above, or not below, the whole number `n`, and else its
  neighbour (`read_rounded_decimal`).
-/

import Formulary.Proofs.FixedPlaces

namespace Formulary

namespace Decimal

open Binary64 (nearestUnits ofRat unitBits)

/-! ## A ninth of a place -/

/-- The unit is fine against ten places. -/
theorem two_pow_mul_le (d : Nat) (h : d ≤ 10) :
    (2 : ℚ) ^ 52 * 10 ^ d * 9 ≤ 2 ^ unitBits := by
  have hten : (10 : ℚ) ^ d ≤ 10 ^ 10 := pow_le_pow_right₀ (by norm_num) h
  have hunit : (2 : ℚ) ^ 90 ≤ 2 ^ unitBits := pow_le_pow_right₀ (by norm_num) (by decide)
  calc (2 : ℚ) ^ 52 * 10 ^ d * 9 ≤ 2 ^ 52 * 10 ^ 10 * 9 := by gcongr
    _ ≤ 2 ^ 90 := by norm_num
    _ ≤ 2 ^ unitBits := hunit

/-- **Accuracy.** Rounding a number near to `n` multiples of 10^-d takes it away by at most a
    ninth of 10^-d, as long as `n` has fifteen digits. -/
theorem abs_nearestUnits_mul_sub_le {q e : ℚ} (hq : 0 ≤ q) {n d : Nat}
    (hd : d ≤ 10) (hn : 9 * (n + 1) ≤ 2 ^ 53) (he : e ≤ 2 ^ unitBits)
    (h : |q * 10 ^ d - n * 2 ^ unitBits| ≤ e) :
    |(nearestUnits q : ℚ) * 10 ^ d - n * 2 ^ unitBits| ≤ e + 2 ^ unitBits / 9 := by
  have hfine := two_pow_mul_le d hd
  have hten : (0 : ℚ) < 10 ^ d := by positivity
  have hunit : (0 : ℚ) < 2 ^ unitBits := by positivity
  have hnq : (9 : ℚ) * (n + 1) ≤ 2 ^ 53 := by exact_mod_cast hn
  have hone : (1 : ℚ) ≤ n + 1 := by linarith [n.cast_nonneg (α := ℚ)]
  generalize (2 : ℚ) ^ unitBits = one at h he hfine hunit ⊢
  -- Rounding is off by 2^-53 of the next multiple, at most a ninth of a unit of the last place.
  have hs : (2 : ℚ) ^ 52 ≤ (n + 1) * one / 10 ^ d := by
    rw [le_div_iff₀ hten]
    nlinarith
  have hle : q ≤ (n + 1) * one / 10 ^ d := by
    rw [le_div_iff₀ hten]
    linarith [(abs_le.mp h).2]
  have hoff := Binary64.abs_nearestUnits_sub_le hq hs hle
  have hninth : |((nearestUnits q : ℚ) - q) * 10 ^ d| ≤ one / 9 := by
    rw [abs_mul, abs_of_pos hten]
    calc |(nearestUnits q : ℚ) - q| * 10 ^ d
        ≤ (n + 1) * one / 10 ^ d / 2 ^ 53 * 10 ^ d := by gcongr
      _ = (n + 1) * one / 2 ^ 53 := by field_simp
      _ ≤ one / 9 := by
        rw [div_le_div_iff₀ (by positivity) (by norm_num)]
        nlinarith
  rw [sub_mul] at hninth
  have hsum := abs_add_le ((nearestUnits q : ℚ) * 10 ^ d - q * 10 ^ d)
    (q * 10 ^ d - n * one)
  rw [sub_add_sub_cancel] at hsum
  linarith

/-! ## Multiples of 10^-d -/

variable {n d : Nat}

theorem unitsOf_mul_ten_pow (n d : Nat) :
    unitsOf n (-d) * 10 ^ d = n * 2 ^ unitBits := by
  rw [unitsOf_neg, div_mul_cancel₀ _ (by positivity)]

/-- The magnitude nearest to a multiple of 10^-d is near to it. -/
theorem abs_nearestUnits_unitsOf_le (hd : d ≤ 10) (hn : 9 * (n + 1) ≤ 2 ^ 53) :
    |(nearestUnits (unitsOf n (-d)) : ℚ) * 10 ^ d - n * 2 ^ unitBits| ≤
      2 ^ unitBits / 9 := by
  have hoff := abs_nearestUnits_mul_sub_le (e := 0) (unitsOf_nonneg n (-d)) hd hn
    (by positivity) (by rw [unitsOf_mul_ten_pow, sub_self, abs_zero])
  rwa [zero_add] at hoff

theorem roundedPlaces_nearestUnits (hd : d ≤ 10) (hn : 9 * (n + 1) ≤ 2 ^ 53) :
    roundedPlaces (nearestUnits (unitsOf n (-d))) d = n := by
  have hunit : (0 : ℚ) < 2 ^ unitBits := by positivity
  exact roundedPlaces_of_abs_lt
    ((abs_nearestUnits_unitsOf_le hd hn).trans_lt (by linarith))

/-- Different multiples of 10^-d stay different. -/
theorem nearestUnits_unitsOf_eq_iff {m : Nat} (hd : d ≤ 10) (hm : 9 * (m + 1) ≤ 2 ^ 53)
    (hn : 9 * (n + 1) ≤ 2 ^ 53) :
    nearestUnits (unitsOf m (-d)) = nearestUnits (unitsOf n (-d)) ↔ m = n := by
  refine ⟨fun h => ?_, fun h => by rw [h]⟩
  rw [← roundedPlaces_nearestUnits hd hm, h, roundedPlaces_nearestUnits hd hn]

theorem nearestUnits_unitsOf_zero (e : Int) : nearestUnits (unitsOf 0 e) = 0 := by
  rw [unitsOf_zero, Binary64.nearestUnits_zero]

theorem roundedPlaces_zero (d : Nat) : roundedPlaces 0 d = 0 :=
  roundedPlaces_of_abs_lt (by simp)

/-- Magnitudes near to a number of fifteen digits are written with fixed places. -/
theorem lt_fixedLimit {u : Nat} (hn : 9 * (n + 1) ≤ 2 ^ 53)
    (h : (u : ℚ) * 10 ^ d ≤ (n + 1) * 2 ^ unitBits) : u < fixedLimit := by
  have hunit : (0 : ℚ) < 2 ^ unitBits := by positivity
  have hnq : (9 : ℚ) * (n + 1) ≤ 2 ^ 53 := by exact_mod_cast hn
  have hten : (1 : ℚ) ≤ 10 ^ d := one_le_pow₀ (by norm_num)
  have hq : (u : ℚ) < 10 ^ 21 * 2 ^ unitBits := by
    have hu : (u : ℚ) ≤ u * 10 ^ d := le_mul_of_one_le_right u.cast_nonneg hten
    generalize (2 : ℚ) ^ unitBits = one at h hunit ⊢
    nlinarith
  rw [fixedLimit_eq]
  exact_mod_cast hq

/-- The number nearest to `n / 10^d`. -/
def ofPlaces (n : Int) (d : Nat) : Binary64 := nearest (n < 0) n.natAbs (-d)

theorem ofPlaces_signedNat (negative : Bool) (n d : Nat) :
    ofPlaces (signedNat negative n) d =
      ofRat (negative && n ≠ 0) (unitsOf n (-d)) := by
  cases negative with
  | false =>
    rw [ofPlaces, nearest_eq_ofRat, signedNat, if_neg Bool.false_ne_true, Int.natAbs_natCast,
      Bool.false_and, decide_eq_false (by omega)]
  | true =>
    have hneg : decide (-(n : Int) < 0) = decide (n ≠ 0) := by
      rw [decide_eq_decide]
      omega
    rw [ofPlaces, nearest_eq_ofRat, signedNat, if_pos rfl, Int.natAbs_neg, Int.natAbs_natCast, hneg,
      Bool.true_and]

theorem signedNat_eq_iff {s t : Bool} {m n : Nat} :
    signedNat s m = signedNat t n ↔ m = n ∧ (m = 0 ∨ s = t) := by
  cases s <;> cases t <;> simp [signedNat] <;> omega

theorem eq_signedNat (n : Int) : n = signedNat (n < 0) n.natAbs := by
  simp only [signedNat, decide_eq_true_eq]
  split <;> omega

/-- A number near to one of fifteen digits is finite. -/
theorem ofRat_of_near (negative : Bool) {q : ℚ} (hn : 9 * (n + 1) ≤ 2 ^ 53)
    (h : |(nearestUnits q : ℚ) * 10 ^ d - n * 2 ^ unitBits| ≤ 2 ^ unitBits) :
    ∃ hu, ofRat negative q = .finite negative (nearestUnits q) hu := by
  have hlimit : nearestUnits q < fixedLimit := by
    refine lt_fixedLimit (d := d) hn ?_
    linarith [(abs_le.mp h).2]
  exact ⟨_, Binary64.ofRat_of_lt negative (lt_bound_of_lt_fixedLimit hlimit)⟩

/-! ## Whole parts -/

/-- The next whole number below or above a magnitude that is near to `n`: `n` itself unless the
    magnitude lies on its other side. -/
def nextWhole (up : Bool) (u n : Nat) : Nat :=
  if up then if n * 2 ^ unitBits < u then n + 1 else n
  else if u < n * 2 ^ unitBits then n - 1 else n

theorem wholeUnits_of_near (up : Bool) {u : Nat}
    (h : |(u : ℚ) - n * 2 ^ unitBits| < 2 ^ unitBits) :
    Binary64.wholeUnits up u = nextWhole up u n * 2 ^ unitBits := by
  have hcast : (2 : ℚ) ^ unitBits = (2 ^ unitBits : Nat) := by push_cast; rfl
  rw [hcast, abs_lt] at h
  simp only [Binary64.wholeUnits, nextWhole, Nat.pow_eq]
  have hunit : 0 < 2 ^ unitBits := Nat.two_pow_pos _
  generalize 2 ^ unitBits = one at h hunit ⊢
  have hbelow : n * one < u + one := by
    have hq : (n : ℚ) * one < u + one := by linarith
    exact_mod_cast hq
  have habove : u < (n + 1) * one := by
    have hq : (u : ℚ) < (n + 1) * one := by linarith
    exact_mod_cast hq
  have hparts := Nat.div_add_mod u one
  congr 1
  -- The quotient is `n - 1` below the whole number, and `n` from there on.
  rcases Nat.lt_or_ge u (n * one) with hlt | hge
  · obtain ⟨m, rfl⟩ : ∃ m, n = m + 1 := Nat.exists_eq_succ_of_ne_zero (by rintro rfl; omega)
    have hm : m * one < u := by linarith
    have hdiv : u / one = m := Nat.div_eq_of_lt_le hm.le hlt
    have hmod : u % one ≠ 0 := by
      rw [hdiv, Nat.mul_comm] at hparts
      omega
    cases up with
    | false => simp [hdiv, hlt]
    | true => simp [hdiv, hmod, hlt.le]
  · have hdiv : u / one = n := Nat.div_eq_of_lt_le hge habove
    have hmod : u % one ≠ 0 ↔ n * one < u := by
      rw [hdiv, Nat.mul_comm] at hparts
      omega
    cases up with
    | false => simp [hdiv, hge]
    | true => simp [hdiv, hmod]

theorem nextWhole_le (up : Bool) (u n : Nat) : nextWhole up u n ≤ n + 1 := by
  rw [nextWhole]
  split <;> split <;> omega

/-- The next whole number below a number with a sign. -/
theorem signedNat_nextWhole (negative : Bool) (u n : Nat) :
    signedNat negative (nextWhole negative u n) =
      if signedNat negative u < signedNat negative n * 2 ^ unitBits then signedNat negative n - 1
      else signedNat negative n := by
  have hcast : (2 : ℤ) ^ unitBits = (2 ^ unitBits : Nat) := by push_cast; rfl
  rw [hcast]
  simp only [signedNat, nextWhole]
  generalize 2 ^ unitBits = one
  cases negative with
  | false =>
    have hiff : (u : ℤ) < n * one ↔ u < n * one := by exact_mod_cast Iff.rfl
    simp only [Bool.false_eq_true, if_false, hiff]
    split
    · next h =>
      have hn : n ≠ 0 := by
        rintro rfl
        omega
      omega
    · rfl
  | true =>
    have hiff : -(u : ℤ) < -(n : ℤ) * one ↔ n * one < u := by
      rw [Int.neg_mul, Int.neg_lt_neg_iff]
      exact_mod_cast Iff.rfl
    simp only [if_true, hiff]
    split <;> omega

/-- The next whole number above a number with a sign. -/
theorem signedNat_nextWhole_not (negative : Bool) (u n : Nat) :
    signedNat negative (nextWhole (!negative) u n) =
      if signedNat negative n * 2 ^ unitBits < signedNat negative u then signedNat negative n + 1
      else signedNat negative n := by
  have h := signedNat_nextWhole (!negative) u n
  simp only [signedNat_not, Int.neg_mul, Int.neg_lt_neg_iff] at h
  split_ifs at h ⊢ <;> omega

end Decimal

/-! ## Operations with the scale -/

namespace Binary64

variable {negative : Bool} {u n d : Nat}

theorem mul_ofNat_ten_pow (negative : Bool) (hd : d ≤ 10) (hu : Representable u) :
    (finite negative u hu).mul (.ofNat (10 ^ d)) = ofRat negative (u * 10 ^ d) := by
  have hten : 10 ^ d < 2 ^ 53 :=
    (Nat.pow_le_pow_right (by decide) hd).trans_lt (by decide)
  rw [finite_mul_ofNat negative hu hten]
  push_cast
  rfl

theorem finite_div_ofNat_ten_pow (negative : Bool) (hd : d ≤ 10) (hu : Representable u) :
    (finite negative u hu).div (.ofNat (10 ^ d)) = ofRat negative (u / 10 ^ d) := by
  have hten : 10 ^ d < 2 ^ 53 :=
    (Nat.pow_le_pow_right (by decide) hd).trans_lt (by decide)
  have hpos : 0 < 10 ^ d * 2 ^ unitBits := by positivity
  have hunit : (2 ^ unitBits : Nat) ≠ (0 : ℚ) := by positivity
  rw [ofNat_eq hten, div, if_pos hpos.ne', ofRatio_eq_ofRat _ _ hpos, Bool.bne_false, Nat.pow_eq,
    Nat.cast_mul (10 ^ d), Nat.cast_mul u (2 ^ unitBits), mul_div_mul_right _ _ hunit]
  push_cast
  rfl

theorem div_ofNat_ten_pow (hd : d ≤ 10) (hn : n < 2 ^ 53) :
    (ofUnits negative (n * 2 ^ unitBits)).div (.ofNat (10 ^ d)) =
      ofRat negative (Decimal.unitsOf n (-d)) := by
  rw [ofUnits_eq negative (representable_units hn), finite_div_ofNat_ten_pow negative hd,
    Decimal.unitsOf_neg]
  push_cast
  rfl

end Binary64

namespace Builtin

open Binary64 (nearestUnits ofRat unitBits)
open Decimal

variable {digits x : String} {d n u : Nat} {negative : Bool}

/-- **Finding a decimal again.** A number that is near to a decimal of fifteen digits is rounded
    to it. -/
theorem read_rounded_of_near (hd : d ≤ 10) (hdigits : read digits = .ofNat d)
    (hn : 9 * (n + 1) ≤ 2 ^ 53) (hu : Representable u)
    (hnear : |(u : ℚ) * 10 ^ d - n * 2 ^ unitBits| ≤ 2 ^ unitBits / 3)
    (hzero : n = 0 → negative = false ∨ u = 0) :
    read (rounded (.finite negative u hu) [x, digits]) = ofPlaces (signedNat negative n) d := by
  have hunit : (0 : ℚ) < 2 ^ unitBits := by positivity
  have hlimit : u < fixedLimit :=
    lt_fixedLimit (d := d) hn (by linarith [(abs_le.mp hnear).2])
  have hplaces : roundedPlaces u d = n :=
    roundedPlaces_of_abs_lt (hnear.trans_lt (by linarith))
  -- A number is written without a sign if it is zero, so zero has none to be kept.
  have hsign : (negative && decide (u ≠ 0)) = (negative && decide (n ≠ 0)) := by
    by_cases hn0 : n = 0
    · rcases hzero hn0 with rfl | rfl
      · rfl
      · simp [hn0]
    · have hu0 : u ≠ 0 := by
        rintro rfl
        exact hn0 (hplaces.symm.trans (roundedPlaces_zero d))
      rw [decide_eq_true hn0, decide_eq_true hu0]
  rw [rounded_of_lt hd hdigits hu hlimit, hplaces, hsign, read_dropPlaces_withPlaces,
    ofPlaces_signedNat]

/-- With less than the number added, its sign stays, and zero becomes positive. -/
theorem natAbs_add_signedNat (negative : Bool) {e : Nat} (h : n ≠ 0 → e < u)
    (hzero : n = 0 → u = 0) :
    |(((e + signedNat negative u).natAbs : ℕ) : ℚ) - u| = e ∧
      signedNat (e + signedNat negative u < 0) n = signedNat negative n ∧
      (n = 0 → decide (e + signedNat negative u < 0) = false) := by
  by_cases hn : n = 0
  · obtain rfl := hzero hn
    rw [hn, signedNat_zero, signedNat_zero, add_zero, Int.natAbs_natCast]
    exact ⟨by simp, rfl, fun _ => decide_eq_false (by omega)⟩
  · have hlt := h hn
    cases negative with
    | false =>
      have habs : ((e : Int) + signedNat false u).natAbs = e + u := by
        simp only [signedNat, Bool.false_eq_true, if_false]
        omega
      have hsign : decide ((e : Int) + signedNat false u < 0) = false := by
        simp only [signedNat, Bool.false_eq_true, if_false]
        exact decide_eq_false (by omega)
      rw [habs, hsign]
      refine ⟨by simp, rfl, fun _ => rfl⟩
    | true =>
      have habs : ((e : Int) + signedNat true u).natAbs = u - e := by
        simp only [signedNat, if_true]
        omega
      have hsign : decide ((e : Int) + signedNat true u < 0) = true := by
        simp only [signedNat, if_true]
        exact decide_eq_true (by omega)
      rw [habs, hsign, Nat.cast_sub hlt.le]
      refine ⟨by simp, rfl, fun h0 => absurd h0 hn⟩

/-- The distance that `round` adds is less than a number near to a decimal that is not zero. -/
theorem two_pow_lt_of_near (hd : d ≤ 10) (hn : n ≠ 0)
    (hnear : |(u : ℚ) * 10 ^ d - n * 2 ^ unitBits| ≤ 2 ^ unitBits / 9) : 2 ^ 1022 < u := by
  have heps := Binary64.epsilon_mul_le hd
  have hten : (0 : ℚ) < 10 ^ d := by positivity
  have hunit : (0 : ℚ) < 2 ^ unitBits := by positivity
  have hone : (1 : ℚ) ≤ n := by exact_mod_cast Nat.one_le_iff_ne_zero.mpr hn
  have hprod : (2 : ℚ) ^ 1022 * 10 ^ d < u * 10 ^ d := by
    generalize (2 : ℚ) ^ 1022 * 10 ^ d = p at heps ⊢
    generalize (2 : ℚ) ^ unitBits = one at heps hnear hunit
    nlinarith [(abs_le.mp hnear).1]
  exact_mod_cast lt_of_mul_lt_mul_right hprod hten.le

/-- `round` finds a decimal of fifteen digits again. -/
theorem read_round (hd : d ≤ 10) (hdigits : read digits = .ofNat d) (hn : 9 * (n + 1) ≤ 2 ^ 53)
    (hu : Representable (nearestUnits (unitsOf n (-d))))
    (hread : read x = .finite negative (nearestUnits (unitsOf n (-d))) hu) :
    read (round [x, digits]) = ofPlaces (signedNat negative n) d := by
  have hnear := abs_nearestUnits_unitsOf_le hd hn
  have hzero : n = 0 → nearestUnits (unitsOf n (-d)) = 0 := by
    rintro rfl
    exact nearestUnits_unitsOf_zero _
  have hten : (0 : ℚ) < 10 ^ d := by positivity
  have hunit : (0 : ℚ) < 2 ^ unitBits := by positivity
  rw [round_cons, hread, Binary64.epsilon_add negative hu]
  generalize nearestUnits (unitsOf n (-d)) = u at hnear hzero
  obtain ⟨habs, hsign, hpositive⟩ := natAbs_add_signedNat negative
    (fun hn0 => two_pow_lt_of_near hd hn0 hnear) hzero
  generalize ((2 ^ 1022 : Nat) : Int) + signedNat negative u = t at habs hsign hpositive ⊢
  -- Three ninths: the number as read, the distance added, and the sum as rounded.
  have hclose : |(t.natAbs : ℚ) * 10 ^ d - n * 2 ^ unitBits| ≤
      2 ^ unitBits / 9 + 2 ^ unitBits / 9 := by
    have hadd := abs_add_le (((t.natAbs : ℚ) - u) * 10 ^ d) (u * 10 ^ d - n * 2 ^ unitBits)
    rw [abs_mul, abs_of_pos hten, habs, sub_mul, sub_add_sub_cancel] at hadd
    refine hadd.trans (add_le_add ?_ hnear)
    exact_mod_cast Binary64.epsilon_mul_le hd
  have hrounded := abs_nearestUnits_mul_sub_le (Nat.cast_nonneg _) hd hn
    (by linarith only [hunit]) hclose
  obtain ⟨hv, hfinite⟩ := ofRat_of_near (d := d) (t < 0) hn
    (hrounded.trans (by linarith only [hunit]))
  rw [hfinite, read_rounded_of_near hd hdigits hn hv (hrounded.trans (by linarith only [hunit]))
    fun h => .inl (hpositive h), hsign]

/-- The product with the scale is less than one away from the whole number. -/
theorem exists_mul_scale (negative : Bool) (hd : d ≤ 10) (hn : 9 * (n + 1) ≤ 2 ^ 53)
    (hu : Representable (nearestUnits (unitsOf n (-d)))) :
    ∃ w hw, (Binary64.finite negative (nearestUnits (unitsOf n (-d))) hu).mul (.ofNat (10 ^ d)) =
      .finite negative w hw ∧ |(w : ℚ) - n * 2 ^ unitBits| < 2 ^ unitBits := by
  have hten : (0 : ℚ) < 10 ^ d := by positivity
  have hunit : (0 : ℚ) < 2 ^ unitBits := by positivity
  have hnear := abs_nearestUnits_unitsOf_le hd hn
  rw [Binary64.mul_ofNat_ten_pow negative hd hu]
  generalize nearestUnits (unitsOf n (-d)) = u at hnear
  have hscale : (0 : ℚ) ≤ u * 10 ^ d := mul_nonneg u.cast_nonneg hten.le
  -- The same accuracy once more, for a number without places.
  have hproduct := abs_nearestUnits_mul_sub_le (d := 0) (e := 2 ^ unitBits / 9) hscale
    (Nat.zero_le _) hn (by linarith only [hunit]) (by rw [pow_zero, mul_one]; exact hnear)
  obtain ⟨hw, hfinite⟩ := ofRat_of_near (d := 0) negative hn
    (hproduct.trans (by linarith only [hunit]))
  rw [pow_zero, mul_one] at hproduct
  exact ⟨_, hw, hfinite, hproduct.trans_lt (by linarith only [hunit])⟩

/-- `ceil` and `floor` find the next decimal above or below the product with the scale. -/
theorem read_scaledBy (hd : d ≤ 10) (hdigits : read digits = .ofNat d)
    (hn : 9 * (n + 2) ≤ 2 ^ 53) {w : Nat} {hw : Representable w}
    (hmul : (read x).mul (.ofNat (10 ^ d)) = .finite negative w hw)
    (hnear : |(w : ℚ) - n * 2 ^ unitBits| < 2 ^ unitBits) {whole : Binary64 → Binary64} {up : Bool}
    (hwhole : whole (.finite negative w hw) = .ofUnits negative (Binary64.wholeUnits up w)) :
    read (scaledBy whole [x, digits]) = ofPlaces (signedNat negative (nextWhole up w n)) d := by
  have hunit : (0 : ℚ) < 2 ^ unitBits := by positivity
  have hnext := nextWhole_le up w n
  rw [wholeUnits_of_near up hnear] at hwhole
  generalize nextWhole up w n = f at hnext hwhole ⊢
  have hf : 9 * (f + 1) ≤ 2 ^ 53 := by omega
  have hback := abs_nearestUnits_unitsOf_le hd hf
  obtain ⟨hv, hquotient⟩ := ofRat_of_near (d := d) negative hf
    (hback.trans (by linarith only [hunit]))
  rw [scaledBy_cons, scale_eq hd hdigits, hmul, hwhole,
    Binary64.div_ofNat_ten_pow hd (by omega), hquotient,
    read_rounded_of_near hd hdigits hf hv (hback.trans (by linarith only [hunit]))]
  rintro rfl
  exact .inr (nearestUnits_unitsOf_zero _)

/-! ## Decimals -/

/-- A decimal below 100000 is read as the number nearest to `n / 10^d`. -/
theorem exists_read_eq {m k : Nat} (hx : IsDecimal negative x.toList m k) (hk : k ≤ d)
    (hd : d ≤ 10) (hn : 9 * (m * 10 ^ (d - k) + 1) ≤ 2 ^ 53) :
    ∃ hu, read x = .finite negative (nearestUnits (unitsOf (m * 10 ^ (d - k)) (-d))) hu := by
  have hunit : (0 : ℚ) < 2 ^ unitBits := by positivity
  have hplaces : -(d : Int) + (d - k : Nat) = -k := by omega
  have hnear := abs_nearestUnits_unitsOf_le hd hn
  obtain ⟨hu, hfinite⟩ := ofRat_of_near negative hn (hnear.trans (by linarith only [hunit]))
  refine ⟨hu, ?_⟩
  rw [read_of_isDecimal hx, ← hfinite, unitsOf_mul_pow, hplaces]

/-- Two multiples of 10^-d are read as the same number only if they are the same. -/
theorem compare?_ofPlaces_eq_iff (hd : d ≤ 10) {g : Int} (hg : 9 * (g.natAbs + 1) ≤ 2 ^ 53)
    (hn : 9 * (n + 1) ≤ 2 ^ 53) (hu : Representable (nearestUnits (unitsOf n (-d)))) :
    (ofPlaces g d).compare? (.finite negative (nearestUnits (unitsOf n (-d))) hu) = some .eq ↔
      g = signedNat negative n := by
  have hunit : (0 : ℚ) < 2 ^ unitBits := by positivity
  have hnear := abs_nearestUnits_unitsOf_le hd hg
  obtain ⟨hv, hfinite⟩ := ofRat_of_near (g < 0) hg (hnear.trans (by linarith only [hunit]))
  have hzero := nearestUnits_unitsOf_eq_iff (n := 0) hd hg (by decide)
  rw [nearestUnits_unitsOf_zero] at hzero
  conv_rhs => rw [eq_signedNat g]
  rw [ofPlaces, nearest_eq_ofRat, hfinite, Binary64.compare?_finite, Option.some.injEq,
    compare_eq_iff_eq, signedNat_eq_iff, signedNat_eq_iff, nearestUnits_unitsOf_eq_iff hd hg hn,
    hzero]

/-- Two texts are read as the same number. -/
def SameNumber (s t : String) : Prop := (read s).compare? (read t) = some .eq

instance (s t : String) : Decidable (SameNumber s t) := inferInstanceAs (Decidable (_ = _))

/-- **Rounding a rounded number.** Whatever decimal below 100000 with at most `d ≤ 10` places is
    rounded to `d` places, `round` finds the same number again. `floor` finds it if and only if
    the product with 10^d is not below the whole number that it stands for, and `ceil` if and
    only if the product is not above; if not, the result is the decimal next to it. -/
theorem read_rounded_decimal {m k : Nat} (hx : IsDecimal negative x.toList m k)
    (hk : k ≤ d) (hd : d ≤ 10) (hm : m < 10 ^ (5 + k)) (hdigits : read digits = .ofNat d) :
    let n := signedNat negative (m * 10 ^ (d - k))
    ∃ p : Int, ((read x).mul (.ofNat (10 ^ d))).units? = some p ∧
      SameNumber (round [x, digits]) x ∧
      (SameNumber (floor [x, digits]) x ↔ ¬p < n * 2 ^ unitBits) ∧
      (SameNumber (ceil [x, digits]) x ↔ ¬n * 2 ^ unitBits < p) ∧
      read (floor [x, digits]) = ofPlaces (if p < n * 2 ^ unitBits then n - 1 else n) d ∧
      read (ceil [x, digits]) = ofPlaces (if n * 2 ^ unitBits < p then n + 1 else n) d := by
  have hlt : m * 10 ^ (d - k) < 10 ^ 15 := by
    calc m * 10 ^ (d - k) < 10 ^ (5 + k) * 10 ^ (d - k) := by gcongr
      _ = 10 ^ (5 + d) := by rw [← pow_add]; congr 1; omega
      _ ≤ 10 ^ 15 := Nat.pow_le_pow_right (by decide) (by omega)
  obtain ⟨hu, hread⟩ := exists_read_eq hx hk hd (by omega)
  generalize m * 10 ^ (d - k) = n at hlt hu hread ⊢
  -- Both directions round the same product `w` to a whole number, which is next to `n`.
  have hround := read_round hd hdigits (by omega) hu hread
  obtain ⟨w, hw, hmul, hnear⟩ := exists_mul_scale negative hd (by omega) hu
  rw [← hread] at hmul
  have hfloor : read (floor [x, digits]) =
      ofPlaces (signedNat negative (nextWhole negative w n)) d :=
    read_scaledBy hd hdigits (by omega) hmul hnear rfl
  have hceil : read (ceil [x, digits]) =
      ofPlaces (signedNat negative (nextWhole (!negative) w n)) d :=
    read_scaledBy hd hdigits (by omega) hmul hnear rfl
  rw [signedNat_nextWhole] at hfloor
  rw [signedNat_nextWhole_not] at hceil
  have hsame {g : Int} (hg : 9 * (g.natAbs + 1) ≤ 2 ^ 53) {t : String}
      (ht : read t = ofPlaces g d) : SameNumber t x ↔ g = signedNat negative n := by
    rw [SameNumber, ht, hread, compare?_ofPlaces_eq_iff hd hg (by omega) hu]
  have hbound : (signedNat negative n).natAbs = n := by
    cases negative
    · exact Int.natAbs_natCast n
    · exact (Int.natAbs_neg _).trans (Int.natAbs_natCast n)
  refine ⟨signedNat negative w, by rw [hmul]; rfl, ?_, ?_, ?_, hfloor, hceil⟩
  · exact (hsame (by omega) hround).mpr rfl
  · rw [hsame _ hfloor]
    · split <;> omega
    · split <;> omega
  · rw [hsame _ hceil]
    · split <;> omega
    · split <;> omega

/-- The product of `0.29` and a hundred is below 29, so `floor` does not find `0.29` again. -/
theorem read_rounded_decimal_below :
    SameNumber (round ["0.29", "2"]) "0.29" ∧ SameNumber (ceil ["0.29", "2"]) "0.29" ∧
      read (floor ["0.29", "2"]) = ofPlaces 28 2 := by
  have hwhole : AllDigits ['0'] := List.all_eq_true.mp (by decide)
  have hbehind : AllDigits ['2', '9'] := List.all_eq_true.mp (by decide)
  have hdecimal : IsDecimal false "0.29".toList 29 2 := .point hwhole hbehind (by decide)
  have hdigits : read "2" = .ofNat 2 := read_of_whole (by decide)
  have hproduct : ((read "0.29").mul (.ofNat (10 ^ 2))).units?.any (· < 29 * 2 ^ unitBits) := by
    decide +kernel
  obtain ⟨p, hp, hround, -, hceil, hfloor, -⟩ :=
    read_rounded_decimal hdecimal le_rfl (by decide) (by decide) hdigits
  have hn : signedNat false (29 * 10 ^ (2 - 2)) = 29 := rfl
  rw [hp, Option.any_some, decide_eq_true_eq] at hproduct
  rw [hn] at hceil hfloor
  rw [if_pos hproduct] at hfloor
  exact ⟨hround, hceil.mpr (not_lt.mpr hproduct.le), hfloor⟩

/-- Decimals with two places that are others with two places afterwards, some of them results of
    `ceil` and `floor`. -/
theorem rounded_decimal_off :
    ceil ["1.1", "2"] = "1.11" ∧ ¬SameNumber (ceil ["1.1", "2"]) "1.1" ∧
      ¬SameNumber (floor ["0.29", "2"]) "0.29" ∧
      ¬SameNumber (ceil [ceil ["0.065", "2"], "2"]) (ceil ["0.065", "2"]) ∧
      ¬SameNumber (floor [floor ["0.295", "2"], "2"]) (floor ["0.295", "2"]) := by
  decide +kernel

end Builtin

end Formulary
