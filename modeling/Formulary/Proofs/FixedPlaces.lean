/-
  Formulary.Proofs.FixedPlaces

  Numbers rounded to fixed places.

  A number of places is read from its argument (`toIntWithin_places`), and a number below 10^21 is
  written with that many places (`rounded_of_lt`): its magnitude, rounded to a whole number of
  multiples of 10^-places (`roundedPlaces`), and its sign. Without the zeros at its end the text
  is read as the same number (`read_dropPlaces_withPlaces`).
-/

import Formulary.Builtin.Numeric
import Formulary.Proofs.RoundedDigits

namespace Formulary

namespace Binary64

theorem representable_two_pow {k : Nat} (h : k < 1024 + unitBits) : Representable (2 ^ k) := by
  have hdvd := two_pow_log2_dvd (by decide : 1 ≤ Nat.pow 2 53) k
  rw [Nat.one_mul] at hdvd
  exact ⟨Nat.pow_lt_pow_right (by decide) h, hdvd⟩

theorem bound_eq_mul : bound = 2 ^ 1024 * 2 ^ unitBits := by
  rw [bound, Nat.pow_eq, Nat.pow_add]

/-- Whole numbers below 2^53 are representable. -/
theorem representable_units {n : Nat} (h : n < 2 ^ 53) : Representable (n * 2 ^ unitBits) := by
  refine ⟨?_, ?_⟩
  · have hpow : 2 ^ 53 ≤ 2 ^ 1024 := Nat.pow_le_pow_right (by decide) (by decide)
    rw [bound_eq_mul]
    exact Nat.mul_lt_mul_of_pos_right (h.trans_le hpow) (Nat.two_pow_pos _)
  · exact two_pow_log2_dvd h.le unitBits

theorem ofNat_eq {n : Nat} (h : n < 2 ^ 53) :
    ofNat n = .finite false (n * 2 ^ unitBits) (representable_units h) := by
  rw [ofNat, Nat.pow_eq]
  exact ofUnits_eq false (representable_units h)

theorem isNaN_ofNat (n : Nat) : (ofNat n).isNaN = false := by
  rw [ofNat, ofUnits_eq_ofRat]
  rcases Nat.lt_or_ge (nearestUnits (n * Nat.pow 2 unitBits : Nat)) bound with hlt | hle
  · rw [ofRat_of_lt false hlt]
    rfl
  · rw [ofRat_of_le false hle]
    rfl

/-- A product with a whole number is the product of the magnitude, rounded. -/
theorem finite_mul_ofNat (negative : Bool) {u n : Nat} (hu : Representable u) (hn : n < 2 ^ 53) :
    (finite negative u hu).mul (.ofNat n) = ofRat negative (u * n) := by
  have hunit : (2 ^ unitBits : Nat) ≠ (0 : ℚ) := by positivity
  rw [ofNat_eq hn, mul, Nat.pow_eq, ofRatio_eq_ofRat _ _ (Nat.two_pow_pos _), Bool.bne_false,
    ← Nat.mul_assoc, Nat.cast_mul _ (2 ^ unitBits), mul_div_cancel_right₀ _ hunit, Nat.cast_mul]

end Binary64

namespace Decimal

open Binary64 (ofRat unitBits)

variable {negative : Bool} {u : Nat}

/-- Without the zeros at its end a decimal with fixed places is read as the same number. -/
theorem read_dropPlaces_withPlaces (negative : Bool) (n places : Nat) :
    read (dropPlaces (String.ofList (withSign negative (withPlaces n places)))) =
      ofRat negative (unitsOf n (-places)) := by
  obtain ⟨digits, kept, hle, hn, h⟩ := exists_isDecimal_dropPlaces negative n places
  have hkept : -(places : Int) + (places - kept : Nat) = -kept := by omega
  rw [read_of_isDecimal h, ← hn, unitsOf_mul_pow, hkept]

theorem read_withPlaces (negative : Bool) (n places : Nat) :
    read (String.ofList (withSign negative (withPlaces n places))) =
      ofRat negative (unitsOf n (-places)) :=
  read_of_isDecimal (by rw [String.toList_ofList]; exact isDecimal_withPlaces negative n places)

theorem fixedLimit_eq : fixedLimit = 10 ^ 21 * 2 ^ unitBits := by
  rw [fixedLimit, Nat.pow_eq, Nat.pow_eq]

theorem fixedLimit_pos : 0 < fixedLimit := by
  rw [fixedLimit_eq]
  exact Nat.mul_pos (Nat.pow_pos (by decide)) (Nat.two_pow_pos _)

theorem two_pow_lt_fixedLimit {k : Nat} (h : k ≤ unitBits + 3) : 2 ^ k < fixedLimit := by
  rw [fixedLimit_eq]
  calc 2 ^ k ≤ 2 ^ (unitBits + 3) := Nat.pow_le_pow_right (by decide) h
    _ = 2 ^ 3 * 2 ^ unitBits := by rw [Nat.pow_add, Nat.mul_comm]
    _ < 10 ^ 21 * 2 ^ unitBits := Nat.mul_lt_mul_of_pos_right (by decide) (Nat.two_pow_pos _)

/-- A number below 10^21 is written with as many places as asked for, up to a hundred. -/
theorem printFixed_of_lt (hu : Representable u) (places : Int) (h : u < fixedLimit) :
    printFixed (.finite negative u hu) places =
      String.ofList (withSign (negative && u ≠ 0)
        (withPlaces (roundedPlaces u (min places.toNat 100)) (min places.toNat 100))) := by
  have hplaces : min places.toNat 100 < unitBits := (min_le_right _ _).trans_lt (by decide)
  simp only [printFixed, if_pos h, withPoint_roundedDigits u hplaces]
  rfl

theorem printFixed_of_le (hu : Representable u) (places : Int) (h : fixedLimit ≤ u) :
    printFixed (.finite negative u hu) places = print (.finite negative u hu) := by
  simp only [printFixed, if_neg (Nat.not_lt.mpr h)]

/-- The nearest multiple of 10^-places is the one within less than half of 10^-places. -/
theorem roundedPlaces_of_abs_lt {u n places : Nat}
    (h : |(u : ℚ) * 10 ^ places - n * 2 ^ unitBits| < 2 ^ unitBits / 2) :
    roundedPlaces u places = n := by
  have hcast : (2 : ℚ) ^ unitBits = (2 ^ unitBits : Nat) := by push_cast; rfl
  rw [hcast, abs_lt] at h
  simp only [roundedPlaces, Nat.pow_eq]
  generalize 2 ^ unitBits = one at h ⊢
  have hbelow : n * (2 * one) < 2 * u * 10 ^ places + one := by
    have hq : (n : ℚ) * (2 * one) < 2 * u * 10 ^ places + one := by linarith
    exact_mod_cast hq
  have habove : 2 * u * 10 ^ places + one < (n + 1) * (2 * one) := by
    have hq : 2 * (u : ℚ) * 10 ^ places + one < (n + 1) * (2 * one) := by linarith
    exact_mod_cast hq
  exact Nat.div_eq_of_lt_le hbelow.le habove

theorem fixedLimit_lt_bound : fixedLimit < Binary64.bound := by
  have hpow : 10 ^ 21 < 2 ^ 1024 := by
    have hten : 10 ^ 21 < 2 ^ 70 := by decide
    exact hten.trans_le (Nat.pow_le_pow_right (by decide) (by decide))
  rw [fixedLimit_eq, Binary64.bound_eq_mul]
  exact Nat.mul_lt_mul_of_pos_right hpow (Nat.two_pow_pos _)

theorem lt_bound_of_lt_fixedLimit {u : Nat} (h : u < fixedLimit) : u < Binary64.bound :=
  h.trans fixedLimit_lt_bound

/-- A natural number with a sign. -/
def signedNat (negative : Bool) (n : Nat) : Int := if negative then -n else n

theorem signedNat_zero (negative : Bool) : signedNat negative 0 = 0 := by
  cases negative <;> rfl

theorem signedNat_not (negative : Bool) (n : Nat) :
    signedNat (!negative) n = -signedNat negative n := by
  cases negative with
  | false => rfl
  | true => exact (Int.neg_neg _).symm

end Decimal

/-- The rational number that a number is, zero if it is not finite. -/
def Binary64.toRat : Binary64 → ℚ
  | .finite negative u _ => (Decimal.signedNat negative u : ℤ) / 2 ^ unitBits
  | _ => 0

namespace Binary64

open Decimal (signedNat)

theorem abs_toRat (negative : Bool) {u : Nat} (hu : Representable u) :
    |(finite negative u hu).toRat| = u / 2 ^ unitBits := by
  have hpos : (0 : ℚ) ≤ u / 2 ^ unitBits := by positivity
  cases negative with
  | false =>
    show |((u : ℤ) : ℚ) / 2 ^ unitBits| = _
    rw [Int.cast_natCast, abs_of_nonneg hpos]
  | true =>
    show |((-(u : ℤ) : ℤ) : ℚ) / 2 ^ unitBits| = _
    rw [Int.cast_neg, Int.cast_natCast, neg_div, abs_neg, abs_of_nonneg hpos]

theorem toRat_neg_iff (negative : Bool) {u : Nat} (hu : Representable u) :
    (finite negative u hu).toRat < 0 ↔ negative = true ∧ u ≠ 0 := by
  have hunit : (0 : ℚ) < 2 ^ unitBits := by positivity
  cases negative with
  | false =>
    show ((u : ℤ) : ℚ) / 2 ^ unitBits < 0 ↔ _
    have hpos := div_nonneg (u.cast_nonneg (α := ℚ)) hunit.le
    rw [Int.cast_natCast]
    exact iff_of_false (not_lt.mpr hpos) fun h => Bool.false_ne_true h.1
  | true =>
    show ((-(u : ℤ) : ℤ) : ℚ) / 2 ^ unitBits < 0 ↔ _
    rw [div_lt_iff₀ hunit, zero_mul, Int.cast_lt_zero, Int.neg_neg_iff_pos]
    simp only [Int.natCast_pos, Nat.pos_iff_ne_zero, true_and]

/-! ## The distance that `round` adds -/

/-- Two numbers are in the order of their signed units. -/
theorem compare?_finite {s t : Bool} {u v : Nat} (hu : Representable u) (hv : Representable v) :
    (finite s u hu).compare? (.finite t v hv) =
      some (compare (signedNat s u) (signedNat t v)) := by
  have hself : compare (0 : Int) 0 = .eq := rfl
  simp only [compare?, place?, signedNat, hself, Ordering.then]

theorem ofInt_eq_ofRat (n : Int) : ofInt false n = ofRat (n < 0) n.natAbs := by
  rw [ofInt]
  split
  · next h =>
    rw [h, signedZero, ofUnits_eq_ofRat]
    rfl
  · rw [ofUnits_eq_ofRat]

/-- The distance that `round` adds is less than a ninth of 10^-10. -/
theorem epsilon_mul_le {d : Nat} (hd : d ≤ 10) : (2 : ℚ) ^ 1022 * 10 ^ d ≤ 2 ^ unitBits / 9 := by
  have hten : (10 : ℚ) ^ d ≤ 10 ^ 10 := pow_le_pow_right₀ (by norm_num) hd
  have hunit : (2 : ℚ) ^ unitBits = 2 ^ 1022 * 2 ^ 52 := by rw [← pow_add]; rfl
  rw [hunit]
  have hpos : (0 : ℚ) < 2 ^ 1022 := by positivity
  generalize (2 : ℚ) ^ 1022 = e at hpos
  calc e * 10 ^ d ≤ e * 10 ^ 10 := by gcongr
    _ ≤ e * 2 ^ 52 / 9 := by linarith

theorem epsilon_eq :
    epsilon = .finite false (2 ^ 1022) (representable_two_pow (by decide)) := ofUnits_eq false _

theorem epsilon_add (negative : Bool) {u : Nat} (hu : Representable u) :
    epsilon.add (.finite negative u hu) =
      ofRat ((2 ^ 1022 : Nat) + signedNat negative u < 0)
        ((2 ^ 1022 : Nat) + signedNat negative u).natAbs := by
  rw [epsilon_eq, add, Bool.false_and, if_neg Bool.false_ne_true, ofInt_eq_ofRat]
  rfl

end Binary64

namespace Builtin

open Decimal (read print dropPlaces withSign withPlaces roundedPlaces fixedLimit)

variable {digits : String} {d : Nat}

/-- An argument that is read as a number of places asks for that many. -/
theorem places_of_read (h : read digits = .ofNat d) : places (some digits) = .ofNat d := by
  rw [places, h, Binary64.isNaN_ofNat, if_neg Bool.false_ne_true]

theorem toIntWithin_ofNat (hd : d ≤ 10) : (Binary64.ofNat d).toIntWithin (Nat.pow 2 63) = d := by
  have hwhole : d * 2 ^ Binary64.unitBits / 2 ^ Binary64.unitBits = d :=
    Nat.mul_div_cancel _ (Nat.two_pow_pos _)
  rw [Binary64.ofNat_eq (by omega), Binary64.toIntWithin, Nat.pow_eq, Nat.pow_eq,
    ← Int.natCast_div, hwhole, if_neg Bool.false_ne_true]
  exact min_eq_left (by omega)

theorem toIntWithin_places (hd : d ≤ 10) (h : read digits = .ofNat d) :
    (places (some digits)).toIntWithin (Nat.pow 2 63) = d := by
  rw [places_of_read h, toIntWithin_ofNat hd]

theorem round_cons (s : String) (rest : List String) :
    round (s :: rest) = rounded (Binary64.epsilon.add (read s)) (s :: rest) := by
  rw [round]

/-- The power of ten that a number is scaled by. -/
def scale (digits : String) : Binary64 := (Binary64.ofNat 10).power (places (some digits))

theorem scaledBy_cons (whole : Binary64 → Binary64) (s digits : String) (rest : List String) :
    scaledBy whole (s :: digits :: rest) =
      rounded ((whole ((read s).mul (scale digits))).div (scale digits)) (s :: digits :: rest) := by
  rw [scaledBy, scale, List.getElem?_cons_succ, List.getElem?_cons_zero]

theorem power_ten (hd : d ≤ 10) : (Binary64.ofNat 10).power (.ofNat d) = .ofNat (10 ^ d) := by
  have hall : ∀ n ≤ 10, (Binary64.ofNat 10).power (.ofNat n) = .ofNat (10 ^ n) := by
    decide +kernel
  exact hall d hd

theorem scale_eq (hd : d ≤ 10) (h : read digits = .ofNat d) : scale digits = .ofNat (10 ^ d) := by
  rw [scale, places_of_read h, power_ten hd]

/-- The text of a rounded number without the flag is the text with it, without the zeros. -/
theorem rounded_eq (x : Binary64) (s digits : String) :
    let text := Decimal.printFixed x ((places digits).toIntWithin (Nat.pow 2 63))
    rounded x [s, digits] = dropPlaces text ∧ rounded x [s, digits, "1"] = text := by
  have hunset : flag none = false := by decide
  have hset : flag (some "1") = true := by decide
  constructor
  · simp [rounded, hunset]
  · simp [rounded, hset]

/-- **Fixed places.** What is written for a number below 10^21. -/
theorem rounded_of_lt (hd : d ≤ 10) (h : read digits = .ofNat d) {negative : Bool} {u : Nat}
    (hu : Representable u) (hlimit : u < fixedLimit) (s : String) :
    rounded (.finite negative u hu) [s, digits] = dropPlaces (String.ofList
      (withSign (negative && u ≠ 0) (withPlaces (roundedPlaces u d) d))) := by
  have hplaces : Min.min (d : Int).toNat 100 = d := by omega
  rw [(rounded_eq _ s digits).1, toIntWithin_places hd h, Decimal.printFixed_of_lt hu _ hlimit,
    hplaces]

end Builtin

end Formulary
