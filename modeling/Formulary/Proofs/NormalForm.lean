/-
  Formulary.Proofs.NormalForm

  The results of arithmetic are left alone by rounding to ten places once more.

  A result is the magnitude nearest to a multiple of 10^-10. Below 2^19 the magnitudes are so dense
  that they lie closer to that multiple than to any other one, and rounding finds the same multiple
  again. From 2^19 on they are so far apart that rounding a magnitude to ten places moves it by
  less than half of the way to the next one, and reading finds the same magnitude again. At 2^19,
  where the distance doubles, the magnitude is itself a multiple. So a rounded magnitude is rounded
  to itself (`nearestUnits_roundedPlaces`), and so is every number that has been through
  `normalize` once (`normalize_read_normalize`).
-/

import Formulary.Proofs.ExactPlaces
import Formulary.Proofs.RoundTrip
import Formulary.Proofs.RoundedDecimals

namespace Formulary

namespace Binary64

/-! ## Numbers that change nothing -/

theorem zero_add_of_isZero {x : Binary64} (h : x.isZero = false) : zero.add x = x := by
  rw [zero, ofNat_eq (by decide)]
  cases x with
  | nan => rfl
  | infinite negative => rfl
  | finite negative u hu =>
    have hne : u ≠ 0 := beq_eq_false_iff_ne.mp h
    cases negative with
    | false =>
      have hsum : ((0 * 2 ^ unitBits : Nat) : ℤ) + u = u := by simp
      rw [add, if_neg Bool.false_ne_true, if_neg Bool.false_ne_true, hsum, ofInt,
        if_neg (by omega), decide_eq_false (by omega), Int.natAbs_natCast]
      exact ofUnits_eq false hu
    | true =>
      have hsum : ((0 * 2 ^ unitBits : Nat) : ℤ) + -u = -u := by simp
      rw [add, if_neg Bool.false_ne_true, if_pos rfl, hsum, ofInt, if_neg (by omega),
        decide_eq_true (by omega), Int.natAbs_neg, Int.natAbs_natCast]
      exact ofUnits_eq true hu

theorem zero_add_zero : zero.add zero = zero := by
  have hsum : ((0 * 2 ^ unitBits : Nat) : ℤ) + (0 * 2 ^ unitBits : Nat) = 0 := by simp
  calc zero.add zero
    _ = ofInt false 0 := by
      rw [zero, ofNat_eq (by decide), add, Bool.false_and, if_neg Bool.false_ne_true, hsum]
    _ = zero := by
      rw [ofInt, if_pos rfl, signedZero, zero, ofNat, Nat.zero_mul]

theorem one_mul_eq (x : Binary64) : (ofNat 1).mul x = x := by
  rw [ofNat_eq (by decide)]
  cases x with
  | nan => rfl
  | infinite negative =>
    have hne : 1 * 2 ^ unitBits ≠ 0 := by positivity
    rw [mul, if_neg hne, Bool.bne_false]
  | finite negative u hu =>
    rw [mul, Nat.pow_eq, Bool.false_bne, Nat.one_mul, Nat.mul_comm (2 ^ unitBits)]
    rw [ofRatio_mul negative hu (Nat.two_pow_pos unitBits)]

end Binary64

namespace Decimal

open Binary64 (Fits nearestUnits unitBits)

variable {u n : Nat}

/-! ## Ten places -/

/-- A magnitude is at most half of 10^-places away from the multiple that it is rounded to. -/
theorem abs_sub_roundedPlaces_le (u places : Nat) :
    |(u : ℚ) * 10 ^ places - roundedPlaces u places * 2 ^ unitBits| ≤ 2 ^ unitBits / 2 := by
  have hunit : (0 : ℚ) < 2 ^ unitBits := by positivity
  have hpos : (0 : ℚ) ≤ u / 2 ^ unitBits * 10 ^ places :=
    mul_nonneg (div_nonneg u.cast_nonneg hunit.le) (by positivity)
  have hhalf := Binary64.abs_floor_add_half_sub_le hpos
  rw [← roundedPlaces_eq_floor, abs_sub_comm] at hhalf
  generalize (2 : ℚ) ^ unitBits = one at hunit hhalf ⊢
  calc |(u : ℚ) * 10 ^ places - roundedPlaces u places * one|
    _ = |((u : ℚ) / one * 10 ^ places - roundedPlaces u places) * one| := by
      congr 1
      field_simp
    _ = |(u : ℚ) / one * 10 ^ places - roundedPlaces u places| * one := by
      rw [abs_mul, abs_of_pos hunit]
    _ ≤ 1 / 2 * one := by gcongr
    _ = one / 2 := by ring

/-- The spacing of the magnitudes just below 2^19, which is 2^-34. -/
def fineBits : Nat := unitBits - 34

theorem two_pow_unitBits : (2 : ℚ) ^ unitBits = 2 ^ 34 * 2 ^ fineBits := by
  rw [← pow_add]
  rfl

theorem two_pow_coarse : 2 ^ (fineBits + 53) = 2 ^ 19 * 2 ^ unitBits := by
  rw [← Nat.pow_add]
  exact congrArg (2 ^ ·) (by decide : fineBits + 53 = 19 + unitBits)

/-- Whole numbers have no places to round. -/
theorem roundedPlaces_whole (m d : Nat) : roundedPlaces (m * 2 ^ unitBits) d = m * 10 ^ d := by
  have hunit : (0 : ℚ) < 2 ^ unitBits := by positivity
  refine roundedPlaces_of_abs_lt ?_
  push_cast
  rw [mul_right_comm, sub_self, abs_zero]
  exact half_pos hunit

theorem unitsOf_whole (m d : Nat) : unitsOf (m * 10 ^ d) (-d) = (m * 2 ^ unitBits : Nat) := by
  rw [unitsOf_mul_pow, neg_add_cancel, unitsOf, zpow_zero, mul_one]
  push_cast
  rfl

/-- Below 2^19 rounding finds the multiple again that the magnitude was made from. -/
theorem roundedPlaces_of_fine (h : nearestUnits (unitsOf n (-10)) < 2 ^ (fineBits + 53)) :
    roundedPlaces (nearestUnits (unitsOf n (-10))) 10 = n := by
  have hq := unitsOf_nonneg n (-10)
  have hfine : (0 : ℚ) < 2 ^ fineBits := by positivity
  -- The bound is a magnitude, so a number from there on would be rounded to it or above.
  have hlt : unitsOf n (-10) < 2 ^ (fineBits + 53) := by
    by_contra hge
    have hmono := Binary64.nearestUnits_mono (by positivity) (not_lt.mp hge)
    have hfits : Fits (2 ^ (fineBits + 53)) := by
      rw [← Nat.one_mul (2 ^ (fineBits + 53))]
      exact Binary64.fits_mul_two_pow (by decide) _
    have hself := Binary64.nearestUnits_natCast hfits
    rw [Nat.cast_pow, Nat.cast_ofNat] at hself
    omega
  have hhalf := Binary64.abs_nearestUnits_sub_le_half hq hlt
  have hexact := unitsOf_mul_ten_pow n 10
  refine roundedPlaces_of_abs_lt ?_
  generalize (nearestUnits (unitsOf n (-10)) : ℚ) = v at hhalf ⊢
  rw [Nat.cast_ofNat] at hexact
  rw [← hexact, ← sub_mul, abs_mul, abs_of_pos (by positivity : (0 : ℚ) < 10 ^ 10),
    two_pow_unitBits]
  linarith

/-- From 2^19 on reading finds the magnitude again that was rounded. -/
theorem nearestUnits_of_coarse {v : Nat} (hv : Fits v) (h : 2 ^ (fineBits + 53) ≤ v) :
    nearestUnits (unitsOf (roundedPlaces v 10) (-10)) = v := by
  rcases Nat.eq_or_lt_of_le h with rfl | hlt
  · -- The magnitude 2^19 itself is a multiple of 10^-10.
    rw [two_pow_coarse, roundedPlaces_whole] at *
    exact (congrArg nearestUnits (unitsOf_whole (2 ^ 19) 10)).trans
      (Binary64.nearestUnits_natCast hv)
  · have hfine : (0 : ℚ) < 2 ^ fineBits := by positivity
    have hhalf := abs_sub_roundedPlaces_le v 10
    have hexact := unitsOf_mul_ten_pow (roundedPlaces v 10) 10
    have hexponent : fineBits + 1 + 52 = fineBits + 53 := by omega
    have hlarge : 2 ^ (fineBits + 1 + 52) < v := by
      rw [hexponent]
      exact hlt
    refine Binary64.nearestUnits_of_large hv hlarge (unitsOf_nonneg _ _) ?_
    rw [Nat.cast_ofNat] at hexact
    rw [← hexact, ← sub_mul, abs_mul, abs_of_pos (by positivity : (0 : ℚ) < 10 ^ 10),
      two_pow_unitBits] at hhalf
    rw [pow_succ]
    linarith

/-- **Double rounding.** The magnitude nearest to a multiple of 10^-10 is rounded to ten places and
    read again as itself. -/
theorem nearestUnits_roundedPlaces (n : Nat) :
    nearestUnits (unitsOf (roundedPlaces (nearestUnits (unitsOf n (-10))) 10) (-10)) =
      nearestUnits (unitsOf n (-10)) := by
  rcases Nat.lt_or_ge (nearestUnits (unitsOf n (-10))) (2 ^ (fineBits + 53)) with hlt | hge
  · rw [roundedPlaces_of_fine hlt]
  · exact nearestUnits_of_coarse (Binary64.isNearest_nearestUnits (unitsOf_nonneg _ _)).fits hge

/-! ## Numbers -/

variable {x : Binary64}

/-- A number that is written in its shortest form is read as itself. -/
theorem read_printFixed_of_eq_print (h : printFixed x 10 = print x) (hzero : x.isZero = false) :
    read (printFixed x 10) = x := by
  rw [h, read_print, hzero, if_neg Bool.false_ne_true]

theorem read_printFixed_ten (negative : Bool) (hu : Representable u) (h : u < fixedLimit) :
    read (printFixed (.finite negative u hu) 10) =
      Binary64.ofRat (negative && u ≠ 0) (unitsOf (roundedPlaces u 10) (-10)) := by
  rw [printFixed_of_lt hu 10 h]
  exact read_withPlaces _ _ _

/-- A number that was read from ten places is read from ten places as itself. -/
theorem read_printFixed_read_printFixed (x : Binary64)
    (hzero : (read (printFixed x 10)).isZero = false) :
    read (printFixed (read (printFixed x 10)) 10) = read (printFixed x 10) := by
  -- A number is settled where it is printed with all its digits: not finite, or from 10^21 on.
  have hshortest {x : Binary64} (h : read (printFixed x 10) = x) :
      read (printFixed (read (printFixed x 10)) 10) = read (printFixed x 10) := by rw [h, h]
  cases x with
  | nan => exact hshortest (read_printFixed_of_eq_print rfl rfl)
  | infinite negative => exact hshortest (read_printFixed_of_eq_print rfl rfl)
  | finite negative u hu =>
    rcases Nat.lt_or_ge u fixedLimit with hlt | hle
    · rw [read_printFixed_ten negative hu hlt] at hzero ⊢
      generalize (negative && decide (u ≠ 0)) = s at hzero ⊢
      set q := unitsOf (roundedPlaces u 10) (-10) with hq
      rcases Nat.lt_or_ge (nearestUnits q) Binary64.bound with hbound | hbound
      · rw [Binary64.ofRat_of_lt s hbound] at hzero ⊢
        have hne : nearestUnits q ≠ 0 := beq_eq_false_iff_ne.mp hzero
        rcases Nat.lt_or_ge (nearestUnits q) fixedLimit with hlimit | hlimit
        · rw [read_printFixed_ten s _ hlimit, decide_eq_true hne, Bool.and_true,
            ← Binary64.ofRat_of_lt s hbound]
          exact Binary64.ofRat_congr s (nearestUnits_roundedPlaces _)
        · exact read_printFixed_of_eq_print (printFixed_of_le _ 10 hlimit) hzero
      · rw [Binary64.ofRat_of_le s hbound]
        exact read_printFixed_of_eq_print rfl rfl
    · have hne : u ≠ 0 := (fixedLimit_pos.trans_le hle).ne'
      exact hshortest
        (read_printFixed_of_eq_print (printFixed_of_le hu 10 hle) (beq_eq_false_iff_ne.mpr hne))

/-- The numbers that sums and products start from are in normal form. -/
theorem normalize_zero_one : normalize .zero = "0" ∧ normalize (.ofNat 1) = "1" := by
  decide +kernel

/-- **Normal form.** What arithmetic writes is written again when it is read. -/
theorem normalize_read_normalize (x : Binary64) :
    normalize (read (normalize x)) = normalize x := by
  set y := read (printFixed x 10) with hy
  have hnormal : normalize x = print y := rfl
  rw [hnormal, read_print]
  split
  · next hzero =>
    rw [print_of_isZero hzero, normalize_zero_one.1]
  · next hne =>
    have hagain := read_printFixed_read_printFixed x (Bool.eq_false_iff.mpr hne)
    rw [normalize, hagain]

end Decimal

namespace Builtin

open Decimal (read print)

variable {op : Binary64 → Binary64 → Binary64}

/-! ## Sums and products -/

theorem normalize_nan : Decimal.normalize .nan = notANumber := by decide

/-- A step of a sum or product leaves a number in normal form, or no number. -/
theorem exists_normalize_onNumbers (op : Binary64 → Binary64 → Binary64) (s t : String) :
    ∃ x, onNumbers (fun x y => Decimal.normalize (op x y)) s t = Decimal.normalize x := by
  rw [onNumbers]
  split
  · exact ⟨.nan, normalize_nan.symm⟩
  · exact ⟨_, rfl⟩

/-- So do all steps. -/
theorem exists_normalize_foldl (op : Binary64 → Binary64 → Binary64) {start : String}
    (hstart : ∃ x, start = Decimal.normalize x) (args : List String) :
    ∃ x, args.foldl (onNumbers fun x y => Decimal.normalize (op x y)) start =
      Decimal.normalize x := by
  induction args generalizing start with
  | nil => exact hstart
  | cons s args ih => exact ih (exists_normalize_onNumbers op start s)

/-- Where `unit` does nothing to the numbers that are read from their texts, it does nothing to a
    result. -/
theorem onNumbers_unit {unit : String} (hunit : (read unit).isNaN = false)
    (hop : ∀ y, op (read unit) (read (print y)) = read (print y)) (x : Binary64) :
    onNumbers (fun x y => Decimal.normalize (op x y)) unit (Decimal.normalize x) =
      Decimal.normalize x := by
  have hnormal : Decimal.normalize x = print (read (Decimal.printFixed x 10)) := rfl
  have hagain := Decimal.normalize_read_normalize x
  rw [onNumbers, hunit, Bool.false_or]
  split
  · next hnan =>
    rw [hnormal, Decimal.read_print] at hnan
    rw [hnormal]
    -- Only the text of `nan` is read as `nan`.
    generalize read (Decimal.printFixed x 10) = y at hnan ⊢
    split at hnan
    · exact absurd ((Binary64.isNaN_ofNat 0).symm.trans hnan) Bool.false_ne_true
    · cases y with
      | nan => rfl
      | infinite negative => exact absurd hnan Bool.false_ne_true
      | finite negative u hu => exact absurd hnan Bool.false_ne_true
  · rw [hnormal, hop, ← hnormal, hagain]

/-- Texts that are combined from `unit` on can be replaced by what they come to. -/
theorem foldl_append_of_unit {unit : String} (hunit : (read unit).isNaN = false)
    (hop : ∀ y, op (read unit) (read (print y)) = read (print y))
    (hnormal : ∃ x, unit = Decimal.normalize x) (args rest : List String) :
    (args ++ rest).foldl (onNumbers fun x y => Decimal.normalize (op x y)) unit =
      (args.foldl (onNumbers fun x y => Decimal.normalize (op x y)) unit :: rest).foldl
        (onNumbers fun x y => Decimal.normalize (op x y)) unit := by
  obtain ⟨x, hx⟩ := exists_normalize_foldl op hnormal args
  rw [List.foldl_append, List.foldl_cons, hx, onNumbers_unit hunit hop]

/-- A text is never read as a zero with a minus, which zero would not leave alone. -/
theorem zero_add_read_print (y : Binary64) :
    (read "0").add (read (print y)) = read (print y) := by
  rw [Decimal.read_zero, Decimal.read_print]
  split
  · exact Binary64.zero_add_zero
  · next hne => exact Binary64.zero_add_of_isZero (Bool.eq_false_iff.mpr hne)

theorem one_mul_read_print (y : Binary64) :
    (read "1").mul (read (print y)) = read (print y) := by
  rw [Decimal.read_one, Binary64.one_mul_eq]

theorem add_append (args rest : List String) : add (args ++ rest) = add (add args :: rest) :=
  foldl_append_of_unit (Decimal.read_zero ▸ Binary64.isNaN_ofNat 0) zero_add_read_print
    ⟨.zero, Decimal.normalize_zero_one.1.symm⟩ args rest

theorem multiply_append (args rest : List String) :
    multiply (args ++ rest) = multiply (multiply args :: rest) :=
  foldl_append_of_unit (Decimal.read_one ▸ Binary64.isNaN_ofNat 1) one_mul_read_print
    ⟨.ofNat 1, Decimal.normalize_zero_one.2.symm⟩ args rest

end Builtin

end Formulary
