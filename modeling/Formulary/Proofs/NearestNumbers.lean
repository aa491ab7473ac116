/-
  Formulary.Proofs.NearestNumbers

  What rounding to binary64 is, without the way it is computed.

  `IsNearest q v` says that no magnitude of 53 significant bits is nearer to `q` than `v`, and
  that of two equally near ones `v` is the one with the even significand. There is one such
  magnitude (`IsNearest.unique`), and `nearestUnits` finds it (`isNearest_nearestUnits`). Two
  consequences carry the proofs about numerals:

    * rounding keeps the order (`nearestUnits_mono`), so the numbers that are rounded to one
      magnitude have no gaps;
    * a number nearer to a magnitude than half of the way to any other one is rounded to it
      (`nearestUnits_of_gap`). Magnitudes are at least 2^-53 of themselves apart
      (`nearestUnits_of_close`), and at least `2^b` above `2^(b + 52)` (`nearestUnits_of_large`).
-/

import Formulary.Proofs.Rounding

namespace Formulary

namespace Binary64

/-! ## Quotients -/

variable {num den : Nat}

/-- Another whole number is at least one away, so the two are not both near to a quotient. -/
theorem one_le_abs_add_abs {c : Nat} (hc : c ≠ divToEven num den) :
    (1 : ℚ) ≤ |(c : ℚ) - num / den| + |(divToEven num den : ℚ) - num / den| := by
  have hone : (1 : ℚ) ≤ |(c : ℚ) - divToEven num den| := by
    have hz : (1 : ℤ) ≤ |(c : ℤ) - divToEven num den| := Int.one_le_abs (by omega)
    exact_mod_cast hz
  have hadd := abs_sub_le (c : ℚ) (num / den) (divToEven num den)
  rw [abs_sub_comm (num / den : ℚ)] at hadd
  exact hone.trans hadd

/-- No whole number is nearer to a quotient. -/
theorem divToEven_closest (num : Nat) (hden : 0 < den) (c : Nat) :
    |(divToEven num den : ℚ) - num / den| ≤ |(c : ℚ) - num / den| := by
  by_cases hc : c = divToEven num den
  · rw [hc]
  · -- What is taken is at most a half away, so the other one is not less than a half away.
    have hhalf := abs_divToEven_sub_le num hden
    have hboth := one_le_abs_add_abs hc
    linarith

theorem divToEven_half (h : 2 * (num % den) = den) : divToEven num den % 2 = 0 := by
  rw [divToEven_eq]
  split <;> omega

/-- If another whole number is as near, it is the even one that is taken. -/
theorem divToEven_even (hden : 0 < den) {c : Nat} (hc : c ≠ divToEven num den)
    (h : |(c : ℚ) - num / den| = |(divToEven num den : ℚ) - num / den|) :
    divToEven num den % 2 = 0 := by
  have hdenq : (0 : ℚ) < den := Nat.cast_pos.mpr hden
  have hhalf := abs_divToEven_sub_le num hden
  have hboth := one_le_abs_add_abs hc
  have htie : |(divToEven num den : ℚ) - num / den| = 1 / 2 := by linarith
  have hscaled : (((divToEven num den * den : ℕ) : ℤ) - num).natAbs * 2 = den := by
    have hq : |((divToEven num den * den : ℕ) : ℚ) - num| * 2 = den := by
      have hsub : ((divToEven num den * den : ℕ) : ℚ) - num =
          (divToEven num den - num / den) * den := by
        push_cast
        field_simp
      rw [hsub, abs_mul, htie, abs_of_pos hdenq]
      ring
    have hz : |((divToEven num den * den : ℕ) : ℤ) - num| * 2 = den := by exact_mod_cast hq
    rw [Int.abs_eq_natAbs] at hz
    exact_mod_cast hz
  -- At a distance of a half, twice what is left is the divisor, whichever side is taken.
  apply divToEven_half
  have hmod := Nat.div_add_mod' num den
  have hrest := Nat.mod_lt num hden
  rcases Nat.lt_or_ge (num / den) (divToEven num den) with hup | hdown
  · have hsucc : divToEven num den = num / den + 1 := le_antisymm (divToEven_le num den) hup
    rw [hsucc, Nat.add_mul, Nat.one_mul] at hscaled
    omega
  · have hsame : divToEven num den = num / den := le_antisymm hdown (le_divToEven num den)
    rw [hsame] at hscaled
    omega

/-! ## Magnitudes -/

variable {v w : Nat}

/-- A magnitude of at most 53 significant bits, of whatever size. -/
def Fits (v : Nat) : Prop := Nat.pow 2 (v.log2 - 52) ∣ v

theorem lt_two_pow_of_log2_lt {n : Nat} (h : v.log2 < n) : v < 2 ^ n :=
  Nat.lt_log2_self.trans_le (Nat.pow_le_pow_right (by decide) h)

/-- A magnitude is on the grid of greater ones or below all of them. -/
theorem Fits.dvd_or_lt (hv : Fits v) (b : Nat) : 2 ^ b ∣ v ∨ 0 < b ∧ v < 2 ^ (b + 52) := by
  rcases Nat.lt_or_ge (v.log2 - 52) b with hlt | hle
  · exact .inr ⟨by omega, lt_two_pow_of_log2_lt (by omega)⟩
  · exact .inl ((Nat.pow_dvd_pow 2 hle).trans hv)

theorem Fits.dvd (hv : Fits v) (h : w.log2 ≤ v.log2) : 2 ^ (w.log2 - 52) ∣ v :=
  (Nat.pow_dvd_pow 2 (by omega)).trans hv

/-- A multiple of a power of two with few enough bits. -/
theorem fits_mul_two_pow {m : Nat} (hm : m ≤ 2 ^ 53) (b : Nat) : Fits (m * 2 ^ b) :=
  two_pow_log2_dvd hm b

/-- The grid of a magnitude is fine. -/
theorem lt_two_pow_grid (v : Nat) : v < 2 ^ (v.log2 - 52) * 2 ^ 53 := by
  rw [← pow_add]
  exact lt_two_pow_of_log2_lt (by omega)

/-- The next magnitude is one step of the grid away. -/
theorem fits_add_grid (hv : Fits v) : Fits (v + 2 ^ (v.log2 - 52)) := by
  obtain ⟨m, hm⟩ : 2 ^ (v.log2 - 52) ∣ v := hv
  have hlt := lt_two_pow_grid v
  have hnext : v + 2 ^ (v.log2 - 52) = (m + 1) * 2 ^ (v.log2 - 52) := by
    calc v + 2 ^ (v.log2 - 52) = 2 ^ (v.log2 - 52) * m + 2 ^ (v.log2 - 52) := by rw [← hm]
      _ = (m + 1) * 2 ^ (v.log2 - 52) := by ring
  have hsmall : m < 2 ^ 53 := Nat.lt_of_mul_lt_mul_left (hm.symm.trans_lt hlt)
  rw [hnext]
  exact fits_mul_two_pow hsmall _

/-! ## The nearest magnitude -/

/-- No magnitude is nearer to `q` than `v`, and if another one is as near, then the significand of
    `v` is even. -/
structure IsNearest (q : ℚ) (v : Nat) : Prop where
  fits : Fits v
  closest : ∀ w, Fits w → |(v : ℚ) - q| ≤ |(w : ℚ) - q|
  even : ∀ w, Fits w → |(w : ℚ) - q| = |(v : ℚ) - q| → w = v ∨ 2 ^ (v.log2 - 52 + 1) ∣ v

variable {p q : ℚ}

/-- There is one nearest magnitude: the two on either side of `q` do not both have an even
    significand. -/
theorem IsNearest.unique (hv : IsNearest q v) (hw : IsNearest q w) : v = w := by
  wlog hlt : v < w generalizing v w
  · rcases Nat.lt_or_ge w v with hlt' | hge
    · exact (this hw hv hlt').symm
    · omega
  have hsame : |(w : ℚ) - q| = |(v : ℚ) - q| :=
    le_antisymm (hw.closest v hv.fits) (hv.closest w hw.fits)
  -- The magnitude next to the smaller one is not between them, as it would be nearer.
  have hstep : w ≤ v + 2 ^ (v.log2 - 52) := by
    by_contra hbetween
    have hnear := hv.closest _ (fits_add_grid hv.fits)
    have hpos : (0 : ℚ) < 2 ^ (v.log2 - 52) := by positivity
    have hvw : ((v + 2 ^ (v.log2 - 52) : ℕ) : ℚ) < w := by
      exact_mod_cast Nat.not_le.mp hbetween
    push_cast at hnear hvw
    generalize (2 : ℚ) ^ (v.log2 - 52) = step at hpos hnear hvw
    rcases abs_cases ((v : ℚ) - q) with h1 | h1 <;> rcases abs_cases ((w : ℚ) - q) with h2 | h2 <;>
      rcases abs_cases ((v : ℚ) + step - q) with h3 | h3 <;> linarith
  have hgrid : 2 ^ (v.log2 - 52) ∣ w := hw.fits.dvd (log2_mono hlt.le)
  have hvgrid : 2 ^ (v.log2 - 52) ∣ v := hv.fits
  have hnext : w = v + 2 ^ (v.log2 - 52) := by
    have hdvd := (Nat.dvd_sub hgrid hvgrid)
    have hle := Nat.le_of_dvd (Nat.sub_pos_of_lt hlt) hdvd
    omega
  have hveven := (hv.even w hw.fits hsame).resolve_left hlt.ne'
  have hweven := (hw.even v hv.fits hsame.symm).resolve_left hlt.ne
  have hmono : v.log2 - 52 + 1 ≤ w.log2 - 52 + 1 := by
    have := log2_mono hlt.le
    omega
  have hodd : 2 ^ (v.log2 - 52 + 1) ∣ 2 ^ (v.log2 - 52) := by
    have hboth := Nat.dvd_sub ((Nat.pow_dvd_pow 2 hmono).trans hweven) hveven
    rwa [hnext, Nat.add_sub_cancel_left] at hboth
  have hle := Nat.le_of_dvd (Nat.two_pow_pos _) hodd
  rw [pow_succ] at hle
  have hpos : 0 < 2 ^ (v.log2 - 52) := Nat.two_pow_pos _
  omega

/-- Rounding keeps the order. -/
theorem IsNearest.mono (hv : IsNearest p v) (hw : IsNearest q w) (h : p < q) : v ≤ w := by
  by_contra hlt
  have hvw : (w : ℚ) < v := by exact_mod_cast Nat.not_le.mp hlt
  have hp := hv.closest w hw.fits
  have hq := hw.closest v hv.fits
  rcases abs_cases ((v : ℚ) - p) with h1 | h1 <;> rcases abs_cases ((w : ℚ) - p) with h2 | h2 <;>
    rcases abs_cases ((v : ℚ) - q) with h3 | h3 <;> rcases abs_cases ((w : ℚ) - q) with h4 | h4 <;>
      linarith

/-! ## It is what is computed -/

/-- A number on a coarse grid is not below the powers of two that have this grid. -/
theorem two_pow_le_div (h : 0 < gridBits num den) : 2 ^ (gridBits num den + 52) ≤ num / den := by
  have hlog : gridBits num den + 52 = (num / den).log2 := by
    rw [gridBits] at h ⊢
    omega
  have hne : num / den ≠ 0 := by
    intro hzero
    rw [gridBits, hzero] at h
    exact absurd h (by decide)
  rw [hlog]
  exact Nat.log2_self_le hne

theorem even_significand {m b : Nat} (hm : m ≤ 2 ^ 53) (heven : m % 2 = 0) :
    2 ^ ((m * 2 ^ b).log2 - 52 + 1) ∣ m * 2 ^ b := by
  rcases Nat.lt_or_ge m (2 ^ 53) with hlt | hge
  · -- The grid of the product is not coarser than `2^b`.
    have hlog : (m * 2 ^ b).log2 - 52 ≤ b := by
      by_cases hzero : m * 2 ^ b = 0
      · rw [hzero]
        exact Nat.zero_le _
      · have hbits : m * 2 ^ b < 2 ^ (53 + b) := by
          rw [pow_add]
          exact Nat.mul_lt_mul_of_pos_right hlt (Nat.two_pow_pos b)
        have := (Nat.log2_lt hzero).mpr hbits
        omega
    obtain ⟨k, rfl⟩ := Nat.dvd_of_mod_eq_zero heven
    exact (Nat.pow_dvd_pow 2 (Nat.add_le_add_right hlog 1)).trans ⟨k, by ring⟩
  · have htop : m = 2 ^ 53 := le_antisymm hm hge
    rw [htop, ← pow_add, Nat.log2_two_pow]
    exact Nat.pow_dvd_pow 2 (by omega)

/-- Nothing on the grid is nearer than what is computed. -/
theorem roundUnits_closest (num : Nat) (hden : 0 < den) (c : Nat) :
    |(roundUnits num den : ℚ) - num / den| ≤
      |((c * 2 ^ gridBits num den : ℕ) : ℚ) - num / den| := by
  have hdenb : 0 < den * 2 ^ gridBits num den := Nat.mul_pos hden (Nat.two_pow_pos _)
  rw [roundUnits_eq, abs_mul_two_pow_sub num hden, abs_mul_two_pow_sub num hden]
  exact mul_le_mul_of_nonneg_right (divToEven_closest num hdenb c) (by positivity)

/-- Below the least magnitude with this grid everything is farther away. -/
theorem roundUnits_closer (num : Nat) (hden : 0 < den) (hpos : 0 < gridBits num den)
    (hw : w < 2 ^ (gridBits num den + 52)) :
    |(roundUnits num den : ℚ) - num / den| < |(w : ℚ) - num / den| := by
  have hle : ((2 ^ 52 * 2 ^ gridBits num den : ℕ) : ℚ) ≤ num / den := by
    have hleast := two_pow_le_div hpos
    rw [Nat.add_comm, pow_add] at hleast
    exact (Nat.cast_le.mpr hleast).trans Nat.cast_div_le
  have hlt : (w : ℚ) < (2 ^ 52 * 2 ^ gridBits num den : ℕ) := by
    rw [Nat.add_comm, pow_add] at hw
    exact Nat.cast_lt.mpr hw
  calc |(roundUnits num den : ℚ) - num / den|
      ≤ |((2 ^ 52 * 2 ^ gridBits num den : ℕ) : ℚ) - num / den| :=
        roundUnits_closest num hden (2 ^ 52)
    _ < |(w : ℚ) - num / den| := by
        rw [abs_of_nonpos (sub_nonpos.mpr hle), abs_of_nonpos (sub_nonpos.mpr (hlt.le.trans hle)),
          neg_sub, neg_sub]
        exact sub_lt_sub_left hlt _

theorem isNearest_roundUnits (num : Nat) (hden : 0 < den) :
    IsNearest (num / den) (roundUnits num den) := by
  refine ⟨roundUnits_dvd num den, fun w hw => ?_, fun w hw hsame => ?_⟩
  · rcases hw.dvd_or_lt (gridBits num den) with ⟨c, rfl⟩ | ⟨hpos, hlt⟩
    · rw [Nat.mul_comm]
      exact roundUnits_closest num hden c
    · exact (roundUnits_closer num hden hpos hlt).le
  · rcases hw.dvd_or_lt (gridBits num den) with ⟨c, rfl⟩ | ⟨hpos, hlt⟩
    · -- Both are on the grid, so the quotient lies in the middle of two whole numbers.
      have hdenb : 0 < den * 2 ^ gridBits num den := Nat.mul_pos hden (Nat.two_pow_pos _)
      have hfew := divToEven_le_two_pow num den
      rw [Nat.mul_comm, roundUnits_eq] at hsame ⊢
      by_cases hc : c = divToEven num (den * 2 ^ gridBits num den)
      · exact .inl (by rw [hc])
      · rw [abs_mul_two_pow_sub num hden, abs_mul_two_pow_sub num hden] at hsame
        have heven := divToEven_even hdenb hc (mul_right_cancel₀ (by positivity) hsame)
        exact .inr (even_significand hfew heven)
    · exact absurd hsame (roundUnits_closer num hden hpos hlt).ne'

/-- **Rounding.** What is computed is the nearest magnitude, of two the one with the even
    significand. -/
theorem isNearest_nearestUnits (hq : 0 ≤ q) : IsNearest q (nearestUnits q) := by
  have hnum : ((q.num.toNat : ℕ) : ℚ) = q.num := by
    exact_mod_cast Int.toNat_of_nonneg (Rat.num_nonneg.mpr hq)
  have hnearest := isNearest_roundUnits q.num.toNat q.den_pos
  rwa [hnum, Rat.num_div_den] at hnearest

/-- Rounding keeps the order. -/
theorem nearestUnits_mono (hp : 0 ≤ p) (h : p ≤ q) : nearestUnits p ≤ nearestUnits q := by
  rcases eq_or_lt_of_le h with rfl | hlt
  · exact le_rfl
  · exact (isNearest_nearestUnits hp).mono (isNearest_nearestUnits (hp.trans h)) hlt

/-- A number not above a magnitude is not rounded above it. -/
theorem nearestUnits_le (hw : Fits w) (h : v ≤ w) : nearestUnits v ≤ w :=
  (nearestUnits_mono v.cast_nonneg (Nat.cast_le.mpr h)).trans_eq (nearestUnits_natCast hw)

/-- A number not below a magnitude is not rounded below it. -/
theorem le_nearestUnits (hw : Fits w) (h : w ≤ v) : w ≤ nearestUnits v :=
  (nearestUnits_natCast hw).symm.trans_le (nearestUnits_mono w.cast_nonneg (Nat.cast_le.mpr h))

/-- What lies between two numbers that are rounded alike is rounded like them. -/
theorem nearestUnits_of_between {r : ℚ} (hp : 0 ≤ p) (hpr : p ≤ r) (hrq : r ≤ q)
    (hv : nearestUnits p = v) (hw : nearestUnits q = v) : nearestUnits r = v := by
  have hlow := nearestUnits_mono hp hpr
  have hhigh := nearestUnits_mono (hp.trans hpr) hrq
  omega

/-! ## Gaps -/

variable {b : Nat}

/-- Just below a power of two the magnitudes have all 53 bits. -/
theorem Fits.add_le_two_pow {a : Nat} (hw : Fits w) (h : w < 2 ^ (a + 53)) :
    w + 2 ^ a ≤ 2 ^ (a + 53) := by
  rcases hw.dvd_or_lt a with ⟨c, rfl⟩ | ⟨-, hless⟩
  · rw [pow_add] at h ⊢
    have hcount : c < 2 ^ 53 := Nat.lt_of_mul_lt_mul_left h
    calc 2 ^ a * c + 2 ^ a = 2 ^ a * (c + 1) := (Nat.mul_succ _ c).symm
      _ ≤ 2 ^ a * 2 ^ 53 := Nat.mul_le_mul_left _ hcount
  · have hfine : 2 ^ a ≤ 2 ^ (a + 52) := Nat.pow_le_pow_right (by decide) (Nat.le_add_right a 52)
    have htwice : 2 ^ (a + 53) = 2 * 2 ^ (a + 52) := Nat.pow_succ'
    omega

/-- A step down to another magnitude is at least 2^-53 of where it starts. -/
theorem le_sub_mul_of_lt (hv : Fits v) (hw : Fits w) (h : w < v) : v ≤ (v - w) * 2 ^ 53 := by
  have hlt := lt_two_pow_grid v
  rcases hw.dvd_or_lt (v.log2 - 52) with hdvd | ⟨hbpos, hsmall⟩
  · have hstep := Nat.le_of_dvd (Nat.sub_pos_of_lt h) (Nat.dvd_sub hv hdvd)
    calc v ≤ 2 ^ (v.log2 - 52) * 2 ^ 53 := hlt.le
      _ ≤ (v - w) * 2 ^ 53 := Nat.mul_le_mul_right _ hstep
  · -- Below the power of two the grid is twice as fine.
    obtain ⟨a, ha⟩ : ∃ a, v.log2 = a + 53 := ⟨v.log2 - 53, by omega⟩
    have htop : v.log2 - 52 + 52 = a + 53 := by omega
    have hpow : 2 ^ (a + 53) ≤ v := ha ▸ Nat.log2_self_le (by omega)
    rw [htop] at hsmall
    have hroom := hw.add_le_two_pow hsmall
    have hdiff : v - 2 ^ (a + 53) + 2 ^ a ≤ v - w := by omega
    calc v = (v - 2 ^ (a + 53)) + 2 ^ (a + 53) := (Nat.sub_add_cancel hpow).symm
      _ = (v - 2 ^ (a + 53)) + 2 ^ a * 2 ^ 53 := by rw [pow_add]
      _ ≤ (v - 2 ^ (a + 53)) * 2 ^ 53 + 2 ^ a * 2 ^ 53 := by omega
      _ = (v - 2 ^ (a + 53) + 2 ^ a) * 2 ^ 53 := (Nat.add_mul _ _ _).symm
      _ ≤ (v - w) * 2 ^ 53 := Nat.mul_le_mul_right _ hdiff

/-- Magnitudes are at least 2^-53 of themselves apart. -/
theorem le_abs_sub_mul (hv : Fits v) (hw : Fits w) (h : w ≠ v) :
    (v : ℚ) ≤ |(w : ℚ) - v| * 2 ^ 53 := by
  rcases Nat.lt_or_gt_of_ne h with hlt | hgt
  · have hgap := le_sub_mul_of_lt hv hw hlt
    rw [abs_sub_comm, ← Nat.cast_sub hlt.le, abs_of_nonneg (Nat.cast_nonneg _)]
    exact_mod_cast hgap
  · have hgap := le_sub_mul_of_lt hw hv hgt
    rw [← Nat.cast_sub hgt.le, abs_of_nonneg (Nat.cast_nonneg _)]
    exact_mod_cast hgt.le.trans hgap

/-- Above `2^(b + 52)` two magnitudes are at least `2^b` apart. -/
theorem two_pow_le_abs_sub (hv : Fits v) (hw : Fits w) (hlarge : 2 ^ (b + 52) < v) (hne : w ≠ v) :
    (2 : ℚ) ^ b ≤ |(w : ℚ) - v| := by
  obtain ⟨m, hm⟩ : 2 ^ b ∣ v := (hv.dvd_or_lt b).resolve_right fun h => by omega
  have hpos : 0 < 2 ^ b := Nat.two_pow_pos b
  rcases hw.dvd_or_lt b with ⟨k, hk⟩ | ⟨-, hsmall⟩
  · have hne' : (k : ℤ) - m ≠ 0 := by
      intro heq
      have hkm : k = m := by omega
      exact hne (by rw [hk, hm, hkm])
    have hone : (1 : ℚ) ≤ |(k : ℚ) - m| := by exact_mod_cast Int.one_le_abs hne'
    rw [hk, hm]
    push_cast
    rw [← mul_sub, abs_mul, abs_of_pos (by positivity)]
    exact le_mul_of_one_le_right (by positivity) hone
  · -- The smaller one lies below a multiple that the greater one lies above.
    have hstep : 2 ^ (b + 52) + 2 ^ b ≤ v := by
      rw [hm, Nat.pow_add, ← Nat.mul_succ]
      refine Nat.mul_le_mul_left _ ?_
      rw [hm, Nat.pow_add] at hlarge
      exact Nat.lt_of_mul_lt_mul_left hlarge
    have hcast : (w : ℚ) + 2 ^ b ≤ v := by exact_mod_cast (by omega : w + 2 ^ b ≤ v)
    rw [abs_sub_comm]
    exact le_trans (by linarith) (le_abs_self _)

/-- What is nearer to a magnitude than half of the way to any other one is rounded to it. -/
theorem nearestUnits_of_gap {g : ℚ} (hv : Fits v) (hq : 0 ≤ q)
    (hgap : ∀ w, Fits w → w ≠ v → g ≤ |(w : ℚ) - v|) (h : 2 * |(v : ℚ) - q| < g) :
    nearestUnits q = v := by
  have hnearest := isNearest_nearestUnits hq
  by_contra hne
  have hfar := hgap _ hnearest.fits hne
  have hclosest := hnearest.closest v hv
  have hadd := abs_sub_le (nearestUnits q : ℚ) q v
  rw [abs_sub_comm q] at hadd
  linarith

/-- A number off by less than 2^-54 of a magnitude is rounded to it. -/
theorem nearestUnits_of_close (hv : Fits v) (hq : 0 ≤ q) (h : |(v : ℚ) - q| * 2 ^ 54 < v) :
    nearestUnits q = v := by
  refine nearestUnits_of_gap (g := v / 2 ^ 53) hv hq (fun w hw hne => ?_) ?_
  · exact (div_le_iff₀ (by norm_num)).mpr (le_abs_sub_mul hv hw hne)
  · rw [lt_div_iff₀ (by norm_num)]
    linarith

/-- **Absorption.** Above `2^(b + 52)` what is less than half of `2^b` away from a magnitude is
    rounded to it. -/
theorem nearestUnits_of_large (hv : Fits v) (hlarge : 2 ^ (b + 52) < v) (hq : 0 ≤ q)
    (h : 2 * |(v : ℚ) - q| < 2 ^ b) : nearestUnits q = v :=
  nearestUnits_of_gap hv hq (fun _ hw hne => two_pow_le_abs_sub hv hw hlarge hne) h

/-! ## Distances -/

theorem abs_floor_add_half_sub_le {x : ℚ} (hx : 0 ≤ x) : |(⌊x + 1 / 2⌋₊ : ℚ) - x| ≤ 1 / 2 := by
  have hlow := Nat.floor_le (by linarith : 0 ≤ x + 1 / 2)
  have hhigh := Nat.lt_floor_add_one (x + 1 / 2)
  rw [abs_le]
  constructor <;> linarith

/-- Below `2^(b + 53)` a multiple of `2^b` is at most half of `2^b` away. -/
theorem abs_nearestUnits_sub_le_half (hq : 0 ≤ q) (h : q < 2 ^ (b + 53)) :
    |(nearestUnits q : ℚ) - q| ≤ 2 ^ b / 2 := by
  have hpow : (0 : ℚ) < 2 ^ b := by positivity
  set x := q / 2 ^ b with hx
  have hxq : q = x * 2 ^ b := by rw [hx, div_mul_cancel₀ _ hpow.ne']
  have hxpos : 0 ≤ x := div_nonneg hq hpow.le
  have hlt : x < 2 ^ 53 := by
    rw [hx, div_lt_iff₀ hpow, ← pow_add, Nat.add_comm]
    exact h
  -- The nearest multiple of `2^b` is a magnitude, and nothing nearer is taken than that.
  have hm : ⌊x + 1 / 2⌋₊ ≤ 2 ^ 53 := by
    rw [← Nat.lt_add_one_iff, Nat.floor_lt (by linarith)]
    push_cast
    linarith
  have hclosest := (isNearest_nearestUnits hq).closest _ (fits_mul_two_pow hm b)
  calc |(nearestUnits q : ℚ) - q|
    _ ≤ |((⌊x + 1 / 2⌋₊ * 2 ^ b : Nat) : ℚ) - q| := hclosest
    _ = |(⌊x + 1 / 2⌋₊ : ℚ) - x| * 2 ^ b := by
      rw [hxq, ← abs_of_pos hpow, ← abs_mul, abs_of_pos hpow]
      push_cast
      ring_nf
    _ ≤ 1 / 2 * 2 ^ b := by
      gcongr
      exact abs_floor_add_half_sub_le hxpos
    _ = 2 ^ b / 2 := by ring

/-! ## Rounded numbers -/

/-- The magnitude of a finite number that something was rounded to. -/
theorem nearestUnits_of_ofRat {s t : Bool} {q : ℚ} {v : Nat} {hv : Representable v}
    (h : ofRat s q = .finite t v hv) : nearestUnits q = v := by
  rcases Nat.lt_or_ge (nearestUnits q) bound with hlt | hle
  · rw [ofRat_of_lt s hlt] at h
    exact (finite.inj h).2
  · rw [ofRat_of_le s hle] at h
    exact nomatch h

/-- The number nearest to `q` units, of two equally near ones the even one; infinite where this is
    2^1024 or more. -/
def IsRounded (q : ℚ) (x : Binary64) : Prop :=
  ∃ v, IsNearest q v ∧ ((∃ hv, x = .finite false v hv) ∨ bound ≤ v ∧ x = .infinite false)

theorem isRounded_iff (hq : 0 ≤ q) {x : Binary64} : IsRounded q x ↔ x = ofRat false q := by
  constructor
  · rintro ⟨v, hv, hx⟩
    obtain rfl := hv.unique (isNearest_nearestUnits hq)
    rcases hx with ⟨hrep, rfl⟩ | ⟨hle, rfl⟩
    · exact (ofRat_of_lt false hrep.1).symm
    · exact (ofRat_of_le false hle).symm
  · intro hx
    rw [hx]
    refine ⟨nearestUnits q, isNearest_nearestUnits hq, ?_⟩
    rcases Nat.lt_or_ge (nearestUnits q) bound with hlt | hle
    · exact .inl ⟨_, ofRat_of_lt false hlt⟩
    · exact .inr ⟨hle, ofRat_of_le false hle⟩

end Binary64

end Formulary
