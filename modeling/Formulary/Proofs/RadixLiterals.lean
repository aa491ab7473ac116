/-
  Formulary.Proofs.RadixLiterals

  Numerals of radix 16, 8 and 2.

  A numeral below 2^64 is rounded once. A wider one is rounded after every digit, and what this
  does is said by the digits alone. The digits up to 2^53 are kept as they are. The first digit
  that reaches 2^53 is the last one that counts: the digits up to it (`Splits`) are rounded, and
  every later digit is less than half of the distance between two numbers and is lost
  (`foldl_addDigit_large`). So the result is the one of the numeral with zeros for the later
  digits. This is the wrong number if and only if the digits up to there lie half way between two
  numbers, the half is rounded down to the even one, and what is lost is not zero
  (`read_radix_iff`).
-/

import Formulary.Proofs.FixedPlaces
import Formulary.Proofs.NearestNumbers

namespace Formulary

open Text (isBlank)

namespace Binary64

variable {u e t d : Nat}

/-! ## Rounding sums -/

/-- Less than half of the grid above a magnitude is rounded to it. -/
theorem nearestUnits_add (hu : Fits u) (he : 2 * e < 2 ^ (u.log2 - 52)) :
    nearestUnits (u + e : Nat) = u := by
  -- Any other magnitude is farther away: it is below, or a step of the grid above.
  have hfar {w : Nat} (hw : Fits w) (hne : w ≠ u) :
      |(u : ℚ) - (u + e : Nat)| < |(w : ℚ) - (u + e : Nat)| := by
    rw [Nat.cast_add, sub_add_cancel_left, abs_neg, abs_of_nonneg e.cast_nonneg]
    rcases Nat.lt_or_gt_of_ne hne with hlt | hgt
    · have hltq : (w : ℚ) < u := Nat.cast_lt.mpr hlt
      rw [abs_sub_comm, abs_of_pos (by linarith [e.cast_nonneg (α := ℚ)])]
      linarith
    · have hstep := Nat.le_of_dvd (Nat.sub_pos_of_lt hgt)
        (Nat.dvd_sub (hw.dvd (log2_mono hgt.le)) hu)
      have hroom : u + 2 * e < w := by
        have hstep' : 2 ^ (u.log2 - 52) ≤ w - u := hstep
        omega
      have hroomq : (u : ℚ) + 2 * e < w := by exact_mod_cast hroom
      rw [abs_of_pos (by linarith [e.cast_nonneg (α := ℚ)])]
      linarith
  refine (isNearest_nearestUnits (Nat.cast_nonneg _)).unique ⟨hu, fun w hw => ?_, fun w hw h => ?_⟩
  · by_cases hne : w = u
    · rw [hne]
    · exact (hfar hw hne).le
  · by_contra hor
    rw [not_or] at hor
    exact absurd h (hfar hw hor.1).ne'

theorem log2_append {r : Nat} (hu : u ≠ 0) (hr : r < 2 ^ t) : (u * 2 ^ t + r).log2 = u.log2 + t := by
  have hne : u * 2 ^ t + r ≠ 0 := by
    have := Nat.mul_pos (Nat.pos_of_ne_zero hu) (Nat.two_pow_pos t)
    omega
  have hupper := Nat.mul_le_mul_right (2 ^ t) (Nat.succ_le_of_lt (Nat.lt_log2_self (n := u)))
  rw [Nat.succ_mul] at hupper
  rw [Nat.log2_eq_iff hne, pow_add, Nat.add_right_comm, pow_add _ (u.log2 + 1)]
  exact ⟨(Nat.mul_le_mul_right _ (Nat.log2_self_le hu)).trans (Nat.le_add_right _ _), by omega⟩

theorem log2_mul_two_pow (hu : u ≠ 0) (t : Nat) : (u * 2 ^ t).log2 = u.log2 + t :=
  log2_append hu (Nat.two_pow_pos t)

/-- A magnitude may be doubled. -/
theorem fits_mul (hu : Fits u) (t : Nat) : Fits (u * 2 ^ t) := by
  obtain ⟨m, hm⟩ : 2 ^ (u.log2 - 52) ∣ u := hu
  have hfew : m ≤ 2 ^ 53 := by
    have hlt := lt_two_pow_grid u
    exact (Nat.lt_of_mul_lt_mul_left (hm.symm.trans_lt hlt)).le
  have heq : u * 2 ^ t = m * 2 ^ (u.log2 - 52 + t) := by
    calc u * 2 ^ t = 2 ^ (u.log2 - 52) * m * 2 ^ t := by rw [← hm]
      _ = m * 2 ^ (u.log2 - 52 + t) := by rw [pow_add]; ring
  rw [heq]
  exact fits_mul_two_pow hfew _

/-- Rounding does not depend on the power of two that a number is multiplied by. -/
theorem nearestUnits_mul_two_pow (hu : 2 ^ 52 ≤ u) (k : Nat) :
    nearestUnits (u * 2 ^ k : Nat) = nearestUnits u * 2 ^ k := by
  have hlog : 52 ≤ u.log2 := (Nat.le_log2 (by omega)).mpr hu
  have hbits : u.log2 + k - 52 = u.log2 - 52 + k := by omega
  rw [nearestUnits_eq_divToEven, nearestUnits_eq_divToEven, log2_mul_two_pow (by omega), hbits,
    pow_add, divToEven_mul_right _ _ (Nat.two_pow_pos k), Nat.mul_assoc]

/-! ## Digits behind the rounded ones -/

/-- Digits behind a number move its quotient only if the number is half way and its half is rounded
    down, which it no longer is. -/
theorem divToEven_append {p s r h : Nat} (hr : r < s) (hh : 0 < h) :
    divToEven (p * s + r) (2 * h * s) =
      if 2 * (p % (2 * h)) = 2 * h ∧ p / (2 * h) % 2 = 0 ∧ r ≠ 0 then divToEven p (2 * h) + 1
      else divToEven p (2 * h) := by
  have hs : 0 < s := Nat.zero_lt_of_lt hr
  have hquotient : (p * s + r) / (2 * h * s) = p / (2 * h) := by
    rw [Nat.mul_comm (2 * h), ← Nat.div_div_eq_div_mul, Nat.mul_comm p, Nat.mul_add_div hs,
      Nat.div_eq_of_lt hr, Nat.add_zero]
  have hrest : (p * s + r) % (2 * h * s) = p % (2 * h) * s + r := by
    have hlt : p % (2 * h) * s + r < 2 * h * s := by
      have hmod : p % (2 * h) + 1 ≤ 2 * h := Nat.mod_lt p (by omega)
      have hmul := Nat.mul_le_mul_right s hmod
      rw [Nat.add_mul, Nat.one_mul] at hmul
      omega
    have hsplit : p * s + r = p % (2 * h) * s + r + 2 * h * s * (p / (2 * h)) := by
      conv_lhs => rw [← Nat.div_add_mod p (2 * h)]
      ring
    rw [hsplit, Nat.add_mul_mod_self_left, Nat.mod_eq_of_lt hlt]
  rw [divToEven_eq, divToEven_eq, hquotient, hrest]
  generalize p % (2 * h) = m
  generalize p / (2 * h) = q
  rcases Nat.lt_trichotomy m h with hlt | rfl | hgt
  · -- Below the half, whatever follows.
    have hmul := Nat.mul_le_mul_right s (Nat.succ_le_of_lt hlt)
    rw [Nat.succ_mul] at hmul
    have hless : 2 * (m * s + r) < 2 * h * s := by
      rw [Nat.mul_assoc]
      omega
    rw [if_neg (by omega), if_neg (by omega), if_neg (by omega)]
  · rw [Nat.mul_assoc]
    split_ifs <;> omega
  · have hmul := Nat.mul_lt_mul_of_pos_right hgt hs
    have hmore : 2 * h * s < 2 * (m * s + r) := by
      rw [Nat.mul_assoc]
      omega
    rw [if_pos (by omega), if_neg (by omega), if_pos (by omega)]

/-! ## A step of the loop -/

/-- A magnitude as a number, infinite if it is too great. -/
theorem ofRat_natCast (hu : Representable u) : ofRat false u = .finite false u hu :=
  (ofUnits_eq_ofRat false u).symm.trans (ofUnits_eq false hu)

theorem representable_of_fits (hlt : u < bound) (hu : Fits u) : Representable u := ⟨hlt, hu⟩

theorem fits_bound : Fits bound := by
  have hfits := fits_mul_two_pow (by decide : 1 ≤ 2 ^ 53) (1024 + unitBits)
  rw [Nat.one_mul] at hfits
  exact hfits

theorem ofRat_eq_infinite (hle : bound ≤ u) : ofRat false u = .infinite false :=
  ofRat_of_le false (le_nearestUnits fits_bound hle)

/-- The product with a power of two is exact. -/
theorem ofRat_mul_two_pow (hu : Fits u) (ht : t < 53) :
    (ofRat false u).mul (.ofNat (2 ^ t)) = ofRat false (u * 2 ^ t : Nat) := by
  have hpow : 2 ^ t < 2 ^ 53 := Nat.pow_lt_pow_right (by decide) ht
  rcases Nat.lt_or_ge u bound with hlt | hle
  · have hrep := representable_of_fits hlt hu
    rw [ofRat_natCast hrep, finite_mul_ofNat false hrep hpow, Nat.cast_mul]
  · have hpos : 2 ^ t * 2 ^ unitBits ≠ 0 := by positivity
    have hlarge : bound ≤ u * 2 ^ t := hle.trans (Nat.le_mul_of_pos_right _ (Nat.two_pow_pos t))
    rw [ofRat_eq_infinite hle, ofRat_eq_infinite hlarge, ofNat_eq hpow, mul, if_neg hpos]
    rfl

theorem ofRat_add_ofNat (hu : Fits u) (hd : d < 2 ^ 53) :
    (ofRat false u).add (.ofNat d) = ofRat false (u + d * 2 ^ unitBits : Nat) := by
  rw [ofNat_eq hd]
  rcases Nat.lt_or_ge u bound with hlt | hle
  · rw [ofRat_natCast (representable_of_fits hlt hu), add]
    simp only [Bool.false_eq_true, if_false, Bool.and_false]
    rw [← Nat.cast_add, ofInt_eq_ofRat, Int.natAbs_natCast,
      decide_eq_false (not_lt.mpr (Int.natCast_nonneg _))]
  · rw [ofRat_eq_infinite hle, ofRat_eq_infinite (hle.trans (Nat.le_add_right _ _)), add]

/-- What a digit of radix `2^t` does to a magnitude. -/
def addDigit (t u d : Nat) : Nat := nearestUnits (u * 2 ^ t + d * 2 ^ unitBits : Nat)

theorem fits_addDigit (t u d : Nat) : Fits (addDigit t u d) :=
  (isNearest_nearestUnits (Nat.cast_nonneg _)).fits

/-- Rounding twice is rounding once. -/
theorem ofRat_nearestUnits (v : Nat) : ofRat false (nearestUnits v : Nat) = ofRat false v :=
  ofRat_congr false (nearestUnits_natCast (isNearest_nearestUnits (Nat.cast_nonneg v)).fits)

/-- The loop on numbers is one on magnitudes. -/
theorem foldl_mul_add (ht : t < 53) {ds : List Nat} (hds : ∀ d ∈ ds, d < 2 ^ t) (hu : Fits u) :
    ds.foldl (fun x d => (x.mul (.ofNat (2 ^ t))).add (.ofNat d)) (ofRat false u) =
      ofRat false (ds.foldl (addDigit t) u : Nat) := by
  -- What goes round the loop is a magnitude, perhaps beyond all numbers: infinity absorbs the rest.
  induction ds generalizing u with
  | nil => rw [List.foldl_nil, List.foldl_nil]
  | cons d ds ih =>
    have hd : d < 2 ^ 53 :=
      (hds d List.mem_cons_self).trans (Nat.pow_lt_pow_right (by decide) ht)
    rw [List.foldl_cons, List.foldl_cons, ofRat_mul_two_pow hu ht, ofRat_add_ofNat (fits_mul hu t) hd,
      ← ofRat_nearestUnits]
    exact ih (fun c hc => hds c (List.mem_cons_of_mem d hc)) (fits_addDigit t u d)

end Binary64

namespace Decimal

open Binary64

variable {t u d : Nat} {ds : List Nat}

/-! ## Values of digits -/

theorem radixValue_nil (radix : Nat) : radixValue radix [] = 0 := rfl

theorem radixValue_concat (radix : Nat) (ds : List Nat) (d : Nat) :
    radixValue radix (ds ++ [d]) = radixValue radix ds * radix + d := by
  rw [radixValue, List.foldl_append]
  rfl

theorem radixValue_append (radix : Nat) (front rest : List Nat) :
    radixValue radix (front ++ rest) =
      radixValue radix front * radix ^ rest.length + radixValue radix rest := by
  induction rest using List.reverseRecOn with
  | nil => rw [List.append_nil, List.length_nil, pow_zero, Nat.mul_one, radixValue_nil, Nat.add_zero]
  | append_singleton rest d ih =>
    rw [← List.append_assoc, radixValue_concat, radixValue_concat, ih, List.length_append,
      List.length_singleton, pow_succ]
    ring

theorem radixValue_lt {radix : Nat} (hds : ∀ d ∈ ds, d < radix) :
    radixValue radix ds < radix ^ ds.length := by
  induction ds using List.reverseRecOn with
  | nil => exact Nat.one_pos
  | append_singleton ds d ih =>
    have hd : d < radix := hds d (by simp)
    have hvalue := ih fun c hc => hds c (List.mem_append_left _ hc)
    have hmul := Nat.mul_le_mul_right radix (Nat.succ_le_of_lt hvalue)
    rw [Nat.succ_mul] at hmul
    rw [radixValue_concat, List.length_append, List.length_singleton, pow_succ]
    omega

/-- Only zeros have the value zero. -/
theorem radixValue_eq_zero_iff {radix : Nat} (hradix : 0 < radix) :
    radixValue radix ds = 0 ↔ ∀ d ∈ ds, d = 0 := by
  induction ds using List.reverseRecOn with
  | nil => exact iff_of_true rfl fun _ h => absurd h List.not_mem_nil
  | append_singleton ds d ih =>
    rw [radixValue_concat, Nat.add_eq_zero_iff, Nat.mul_eq_zero, ih]
    simp only [List.mem_append, List.mem_singleton]
    constructor
    · rintro ⟨hzeros | hzero, rfl⟩ c (hc | rfl)
      · exact hzeros c hc
      · rfl
      · omega
      · rfl
    · intro h
      exact ⟨.inl fun c hc => h c (.inl hc), h d (.inr rfl)⟩

/-! ## The digits that count -/

/-- The start of the digits up to the first one that reaches 2^53, and the digits behind it. -/
structure Splits (radix : Nat) (ds front rest : List Nat) : Prop where
  append : ds = front ++ rest
  full : 2 ^ 53 ≤ radixValue radix front
  least : radixValue radix front.dropLast < 2 ^ 53

theorem exists_splits {radix : Nat} (h : 2 ^ 53 ≤ radixValue radix ds) :
    ∃ front rest, Splits radix ds front rest := by
  induction ds using List.reverseRecOn with
  | nil =>
    rw [radixValue_nil] at h
    exact absurd h (by decide)
  | append_singleton ds d ih =>
    rcases Nat.lt_or_ge (radixValue radix ds) (2 ^ 53) with hlt | hge
    · refine ⟨ds ++ [d], [], (List.append_nil _).symm, h, ?_⟩
      rwa [List.dropLast_concat]
    · obtain ⟨front, rest, hsplit⟩ := ih hge
      exact ⟨front, rest ++ [d], by rw [← List.append_assoc, ← hsplit.append], hsplit.full,
        hsplit.least⟩

theorem addDigit_value (t v d : Nat) :
    addDigit t (v * 2 ^ unitBits) d = nearestUnits ((v * 2 ^ t + d) * 2 ^ unitBits : Nat) := by
  have hsum : v * 2 ^ unitBits * 2 ^ t + d * 2 ^ unitBits = (v * 2 ^ t + d) * 2 ^ unitBits := by
    ring
  rw [addDigit, hsum]

/-- Below 2^53 nothing is rounded. -/
theorem foldl_addDigit_small (h : radixValue (2 ^ t) ds < 2 ^ 53) :
    ds.foldl (addDigit t) 0 = radixValue (2 ^ t) ds * 2 ^ unitBits := by
  induction ds using List.reverseRecOn with
  | nil => exact (Nat.zero_mul _).symm
  | append_singleton ds d ih =>
    have hless : radixValue (2 ^ t) ds < 2 ^ 53 := by
      have hmul := Nat.le_mul_of_pos_right (radixValue (2 ^ t) ds) (Nat.two_pow_pos t)
      rw [radixValue_concat] at h
      omega
    rw [List.foldl_append, ih hless, List.foldl_cons, List.foldl_nil, addDigit_value,
      ← radixValue_concat]
    exact nearestUnits_natCast (fits_mul_two_pow h.le _)

/-- At the first digit that reaches 2^53 the value is rounded. -/
theorem foldl_addDigit_front {front : List Nat} (hne : front ≠ [])
    (h : radixValue (2 ^ t) front.dropLast < 2 ^ 53) :
    front.foldl (addDigit t) 0 =
      nearestUnits (radixValue (2 ^ t) front * 2 ^ unitBits : Nat) := by
  rw [← List.dropLast_append_getLast hne, List.foldl_append, foldl_addDigit_small h, List.foldl_cons,
    List.foldl_nil, addDigit_value, ← radixValue_concat]

/-- From 2^53 on every digit is less than half of the grid, and is lost. -/
theorem foldl_addDigit_large (hu : Fits u) (hlarge : 2 ^ (53 + unitBits) ≤ u)
    (hds : ∀ d ∈ ds, d < 2 ^ t) : ds.foldl (addDigit t) u = u * (2 ^ t) ^ ds.length := by
  induction ds generalizing u with
  | nil => rw [List.foldl_nil, List.length_nil, pow_zero, Nat.mul_one]
  | cons d ds ih =>
    have hpos : u ≠ 0 := (Nat.lt_of_lt_of_le (Nat.two_pow_pos _) hlarge).ne'
    -- The digit is below `2^t` units, and half of the grid of the product is not.
    have hlost : addDigit t u d = u * 2 ^ t := by
      refine nearestUnits_add (fits_mul hu t) ?_
      have hlog := (Nat.le_log2 hpos).mpr hlarge
      have hbits : 1 + t + unitBits ≤ (u * 2 ^ t).log2 - 52 := by
        rw [log2_mul_two_pow hpos]
        omega
      refine Nat.lt_of_lt_of_le ?_ (Nat.pow_le_pow_right (by decide) hbits)
      rw [pow_add, pow_add, pow_one, Nat.mul_assoc]
      exact Nat.mul_lt_mul_of_pos_left
        (Nat.mul_lt_mul_of_pos_right (hds d List.mem_cons_self) (Nat.two_pow_pos _)) (by decide)
    have hmore : 2 ^ (53 + unitBits) ≤ u * 2 ^ t :=
      hlarge.trans (Nat.le_mul_of_pos_right _ (Nat.two_pow_pos t))
    rw [List.foldl_cons, hlost, ih (fits_mul hu t) hmore fun c hc => hds c (List.mem_cons_of_mem d hc),
      List.length_cons, pow_succ', Nat.mul_assoc]

/-- **Wide numerals.** A numeral from 2^64 on is read like the one with zeros for the digits behind
    the first one that reaches 2^53. -/
theorem readDigits_of_splits {front rest : List Nat} (ht : t < 53)
    (hds : ∀ d ∈ ds, d < 2 ^ t) (hwide : 2 ^ 64 ≤ radixValue (2 ^ t) ds)
    (h : Splits (2 ^ t) ds front rest) :
    readDigits (2 ^ t) ds =
      ofRat false (radixValue (2 ^ t) front * (2 ^ t) ^ rest.length * 2 ^ unitBits : Nat) := by
  have hzero : Binary64.zero = ofRat false ((0 : Nat) : ℚ) := by
    rw [Binary64.zero, ofNat, ofUnits_eq_ofRat, Nat.zero_mul]
  have hne : front ≠ [] := by
    rintro rfl
    have hfull := h.full
    rw [radixValue_nil] at hfull
    exact absurd hfull (by decide)
  have hfull : 2 ^ (53 + unitBits) ≤ radixValue (2 ^ t) front * 2 ^ unitBits := by
    rw [pow_add]
    exact Nat.mul_le_mul_right _ h.full
  have hlarge : 2 ^ (53 + unitBits) ≤
      nearestUnits (radixValue (2 ^ t) front * 2 ^ unitBits : Nat) := by
    have hfits : Fits (2 ^ (53 + unitBits)) := by
      rw [pow_add]
      exact fits_mul_two_pow le_rfl unitBits
    exact le_nearestUnits hfits hfull
  have hrest : ∀ d ∈ rest, d < 2 ^ t := fun d hd =>
    hds d (h.append ▸ List.mem_append_right front hd)
  -- The loop runs over the front, where it ends with one rounding, and then over the rest.
  have hfold : ds.foldl (addDigit t) 0 =
      nearestUnits (radixValue (2 ^ t) front * 2 ^ unitBits : Nat) * (2 ^ t) ^ rest.length := by
    rw [h.append, List.foldl_append, foldl_addDigit_front hne h.least]
    exact foldl_addDigit_large (isNearest_nearestUnits (Nat.cast_nonneg _)).fits hlarge hrest
  have hscaled : nearestUnits (radixValue (2 ^ t) front * 2 ^ unitBits : Nat) * (2 ^ t) ^ rest.length =
      nearestUnits (radixValue (2 ^ t) front * (2 ^ t) ^ rest.length * 2 ^ unitBits : Nat) := by
    have hbits : 2 ^ 52 ≤ radixValue (2 ^ t) front * 2 ^ unitBits :=
      (Nat.pow_le_pow_right (by decide) (by decide)).trans hfull
    rw [← pow_mul, ← nearestUnits_mul_two_pow hbits, Nat.mul_right_comm]
  have hwide' : ¬radixValue (2 ^ t) ds < Nat.pow 2 64 := Nat.not_lt.mpr hwide
  simp only [readDigits, if_neg hwide']
  rw [hzero, foldl_mul_add ht hds (Nat.dvd_zero _), hfold, hscaled, ofRat_nearestUnits]

/-! ## What is lost -/

/-- A number half way between two magnitudes, of which the lower one is even. -/
def HalfwayAboveEven (p : Nat) : Prop :=
  2 * (p % 2 ^ (p.log2 - 52)) = 2 ^ (p.log2 - 52) ∧ p / 2 ^ (p.log2 - 52) % 2 = 0

instance (p : Nat) : Decidable (HalfwayAboveEven p) :=
  inferInstanceAs (Decidable (_ ∧ _))

/-- The digits that count are half way and are rounded down, though digits that are not zero
    follow. -/
def LosesDigits (radix : Nat) (ds : List Nat) : Prop :=
  ∃ front rest, Splits radix ds front rest ∧ HalfwayAboveEven (radixValue radix front) ∧
    ∃ d ∈ rest, d ≠ 0

/-- The rounding of a number of more than 53 bits with digits behind it. -/
theorem nearestUnits_append {p k r : Nat} (hp : 2 ^ 53 ≤ p) (hr : r < 2 ^ k) (b : Nat) :
    nearestUnits ((p * 2 ^ k + r) * 2 ^ b : Nat) =
      (divToEven p (2 ^ (p.log2 - 52)) + if HalfwayAboveEven p ∧ r ≠ 0 then 1 else 0) *
        2 ^ (p.log2 - 52 + k + b) := by
  have hpne : p ≠ 0 := (Nat.lt_of_lt_of_le (Nat.two_pow_pos 53) hp).ne'
  have hlog : 53 ≤ p.log2 := (Nat.le_log2 hpne).mpr hp
  have hne : p * 2 ^ k + r ≠ 0 := by
    have := Nat.mul_pos (Nat.pos_of_ne_zero hpne) (Nat.two_pow_pos k)
    omega
  have hbits : p.log2 + k + b - 52 = p.log2 - 52 + k + b := by omega
  obtain ⟨g, hg⟩ : ∃ g, p.log2 - 52 = g + 1 := ⟨p.log2 - 53, by omega⟩
  -- The grid does not reach into the digits behind, so only the tie rule sees them.
  have hdiv : divToEven (p * 2 ^ k + r) (2 ^ (p.log2 - 52) * 2 ^ k) =
      divToEven p (2 ^ (p.log2 - 52)) + if HalfwayAboveEven p ∧ r ≠ 0 then 1 else 0 := by
    have happend := divToEven_append (p := p) hr (Nat.two_pow_pos g)
    rw [← pow_succ', ← hg] at happend
    rw [happend]
    by_cases hlost : HalfwayAboveEven p ∧ r ≠ 0
    · rw [if_pos hlost, if_pos ⟨hlost.1.1, hlost.1.2, hlost.2⟩]
    · rw [if_neg hlost, if_neg fun h => hlost ⟨⟨h.1, h.2.1⟩, h.2.2⟩, Nat.add_zero]
  rw [nearestUnits_eq_divToEven, log2_mul_two_pow hne, log2_append hpne hr, hbits,
    pow_add _ (p.log2 - 52 + k), divToEven_mul_right _ _ (Nat.two_pow_pos b),
    pow_add _ (p.log2 - 52), hdiv]

/-- The lower magnitude is where a number half way above an even one is rounded to. -/
theorem divToEven_of_halfway {p : Nat} (h : HalfwayAboveEven p) :
    divToEven p (2 ^ (p.log2 - 52)) = p / 2 ^ (p.log2 - 52) := by
  obtain ⟨hhalf, heven⟩ := h
  rw [divToEven_eq, hhalf, heven, if_neg (by omega)]

/-- Magnitudes are the same number if they are equal or both too great. -/
theorem ofRat_eq_iff {v w : Nat} (hv : Fits v) (hw : Fits w) :
    ofRat false v = ofRat false w ↔ v = w ∨ bound ≤ v ∧ bound ≤ w := by
  -- A finite number tells its magnitude; from the bound on all are the same infinity.
  rcases Nat.lt_or_ge v bound with hlt | hle
  · rw [ofRat_natCast (representable_of_fits hlt hv)]
    rw [or_iff_left fun h => Nat.not_le.mpr hlt h.1]
    constructor
    · intro h
      have hself := nearestUnits_of_ofRat h.symm
      rwa [nearestUnits_natCast hw, eq_comm] at hself
    · rintro rfl
      exact (ofRat_natCast (representable_of_fits hlt hv)).symm
  · rw [ofRat_eq_infinite hle]
    constructor
    · intro h
      refine .inr ⟨hle, ?_⟩
      by_contra hlt
      rw [ofRat_natCast (representable_of_fits (Nat.not_le.mp hlt) hw)] at h
      exact nomatch h
    · rintro (rfl | ⟨-, hle'⟩)
      · exact (ofRat_eq_infinite hle).symm
      · exact (ofRat_eq_infinite hle').symm

/-- Digits behind a number do not take it over a power of two. -/
theorem two_pow_le_of_append {p r k a : Nat} (hp : 0 < p) (hr : r < 2 ^ k)
    (h : 2 ^ a ≤ p * 2 ^ k + r) : 2 ^ a ≤ p * 2 ^ k := by
  rcases Nat.le_total k a with hle | hle
  · obtain ⟨j, rfl⟩ := Nat.exists_eq_add_of_le' hle
    rw [pow_add] at h ⊢
    have hlt : 2 ^ j < p + 1 := by
      refine Nat.lt_of_mul_lt_mul_right (a := 2 ^ k) ?_
      rw [Nat.succ_mul]
      omega
    exact Nat.mul_le_mul_right _ (Nat.lt_succ_iff.mp hlt)
  · exact (Nat.pow_le_pow_right (by decide) hle).trans (Nat.le_mul_of_pos_left _ hp)

section

variable {front rest : List Nat} (ht : t < 53) (hds : ∀ d ∈ ds, d < 2 ^ t)
  (hwide : 2 ^ 64 ≤ radixValue (2 ^ t) ds) (h : Splits (2 ^ t) ds front rest)

include hds h in
/-- The value of all digits from the two parts. -/
theorem radixValue_of_splits :
    radixValue (2 ^ t) ds =
        radixValue (2 ^ t) front * 2 ^ (t * rest.length) + radixValue (2 ^ t) rest ∧
      radixValue (2 ^ t) rest < 2 ^ (t * rest.length) := by
  rw [pow_mul]
  refine ⟨?_, radixValue_lt fun d hd => hds d (h.append ▸ List.mem_append_right front hd)⟩
  rw [← radixValue_append, ← h.append]

include ht hds hwide h in
/-- Where the digits that count are not half way above an even number, or nothing follows them, the
    numeral is rounded. -/
theorem isRounded_readDigits
    (hkept : ¬(HalfwayAboveEven (radixValue (2 ^ t) front) ∧ radixValue (2 ^ t) rest ≠ 0)) :
    IsRounded (radixValue (2 ^ t) ds * 2 ^ unitBits : Nat) (readDigits (2 ^ t) ds) := by
  obtain ⟨hvalue, hless⟩ := radixValue_of_splits hds h
  have hexact := nearestUnits_append h.full hless unitBits
  have hzeros := nearestUnits_append h.full (Nat.two_pow_pos (t * rest.length)) unitBits
  rw [if_neg hkept, ← hvalue] at hexact
  rw [if_neg fun hlost => hlost.2 rfl, Nat.add_zero, ← hexact, pow_mul] at hzeros
  rw [isRounded_iff (Nat.cast_nonneg _), readDigits_of_splits ht hds hwide h]
  exact ofRat_congr false hzeros

include hds h in
/-- What is kept is rounded down, so it is infinite only if the numeral is. -/
theorem bound_le_nearestUnits_iff_of_halfway
    (hhalf : HalfwayAboveEven (radixValue (2 ^ t) front)) :
    bound ≤ nearestUnits
        (radixValue (2 ^ t) front * 2 ^ (t * rest.length) * 2 ^ unitBits : Nat) ↔
      2 ^ 1024 ≤ radixValue (2 ^ t) ds := by
  obtain ⟨hvalue, hless⟩ := radixValue_of_splits hds h
  have hzeros := nearestUnits_append h.full (Nat.two_pow_pos (t * rest.length)) unitBits
  rw [if_neg fun hlost => hlost.2 rfl, Nat.add_zero, Nat.add_zero,
    divToEven_of_halfway hhalf] at hzeros
  rw [hvalue]
  constructor
  · intro hle
    have hdown : nearestUnits
          (radixValue (2 ^ t) front * 2 ^ (t * rest.length) * 2 ^ unitBits : Nat) ≤
        radixValue (2 ^ t) front * 2 ^ (t * rest.length) * 2 ^ unitBits := by
      rw [hzeros, pow_add, pow_add, ← Nat.mul_assoc, ← Nat.mul_assoc]
      exact Nat.mul_le_mul_right _ (Nat.mul_le_mul_right _ (Nat.div_mul_le_self _ _))
    have hunits := hle.trans hdown
    rw [bound_eq_mul] at hunits
    exact (Nat.le_of_mul_le_mul_right hunits (Nat.two_pow_pos _)).trans (Nat.le_add_right _ _)
  · intro hle
    have hfront : 0 < radixValue (2 ^ t) front := Nat.lt_of_lt_of_le (Nat.two_pow_pos 53) h.full
    refine le_nearestUnits fits_bound ?_
    rw [bound_eq_mul]
    exact Nat.mul_le_mul_right _ (two_pow_le_of_append hfront hless hle)

include ht hds hwide h in
/-- Else it is one step of the grid too small, unless it is infinite all the same. -/
theorem isRounded_readDigits_iff_of_halfway
    (hlost : HalfwayAboveEven (radixValue (2 ^ t) front) ∧ radixValue (2 ^ t) rest ≠ 0) :
    IsRounded (radixValue (2 ^ t) ds * 2 ^ unitBits : Nat) (readDigits (2 ^ t) ds) ↔
      2 ^ 1024 ≤ radixValue (2 ^ t) ds := by
  obtain ⟨hvalue, hless⟩ := radixValue_of_splits hds h
  have hexact := nearestUnits_append h.full hless unitBits
  have hzeros := nearestUnits_append h.full (Nat.two_pow_pos (t * rest.length)) unitBits
  have hbound := bound_le_nearestUnits_iff_of_halfway hds h hlost.1
  rw [if_pos hlost, ← hvalue] at hexact
  rw [if_neg fun hlost => hlost.2 rfl, Nat.add_zero, Nat.add_zero] at hzeros
  set p := radixValue (2 ^ t) front
  set n := radixValue (2 ^ t) ds
  set k := t * rest.length
  have hstep : nearestUnits (n * 2 ^ unitBits : Nat) =
      nearestUnits (p * 2 ^ k * 2 ^ unitBits : Nat) + 2 ^ (p.log2 - 52 + k + unitBits) := by
    rw [hexact, hzeros, Nat.succ_mul]
  have hpos : 0 < 2 ^ (p.log2 - 52 + k + unitBits) := Nat.two_pow_pos _
  -- Both are magnitudes, a step of the grid apart, and the same number only beyond all numbers.
  rw [isRounded_iff (Nat.cast_nonneg _), readDigits_of_splits ht hds hwide h, ← pow_mul,
    ← ofRat_nearestUnits, ← ofRat_nearestUnits (n * 2 ^ unitBits),
    ofRat_eq_iff (isNearest_nearestUnits (Nat.cast_nonneg _)).fits
      (isNearest_nearestUnits (Nat.cast_nonneg _)).fits, hbound, hstep]
  constructor
  · rintro (hsame | ⟨hle, -⟩)
    · exact absurd hsame (Nat.lt_add_of_pos_right hpos).ne
    · exact hle
  · intro hle
    exact .inr ⟨hle, (hbound.mpr hle).trans (Nat.le_add_right _ _)⟩

end

/-- The digits of a numeral are rounded rightly if and only if there are few enough of them, or too
    many, or none is lost. -/
theorem isRounded_readDigits_iff (ht : t < 53) (hds : ∀ d ∈ ds, d < 2 ^ t) :
    IsRounded (radixValue (2 ^ t) ds * 2 ^ unitBits : Nat) (readDigits (2 ^ t) ds) ↔
      radixValue (2 ^ t) ds < 2 ^ 64 ∨ 2 ^ 1024 ≤ radixValue (2 ^ t) ds ∨
        ¬LosesDigits (2 ^ t) ds := by
  have hzeros {rest : List Nat} : radixValue (2 ^ t) rest ≠ 0 ↔ ∃ d ∈ rest, d ≠ 0 := by
    rw [Ne, radixValue_eq_zero_iff (Nat.two_pow_pos t)]
    simp only [not_forall, exists_prop, Ne]
  by_cases hnarrow : radixValue (2 ^ t) ds < 2 ^ 64
  · -- The whole value is rounded at once.
    refine iff_of_true ?_ (.inl hnarrow)
    have hlt : radixValue (2 ^ t) ds < Nat.pow 2 64 := hnarrow
    rw [isRounded_iff (Nat.cast_nonneg _)]
    simp only [readDigits, if_pos hlt]
    exact ofUnits_eq_ofRat false _
  · have hwide := Nat.not_lt.mp hnarrow
    rw [or_iff_right hnarrow]
    by_cases hloses : LosesDigits (2 ^ t) ds
    · obtain ⟨front, rest, h, hhalf, hrest⟩ := id hloses
      rw [or_iff_left (not_not_intro hloses)]
      exact isRounded_readDigits_iff_of_halfway ht hds hwide h ⟨hhalf, hzeros.mpr hrest⟩
    · obtain ⟨front, rest, h⟩ := exists_splits ((Nat.pow_le_pow_right (by decide) (by decide)).trans hwide)
      refine iff_of_true ?_ (.inr hloses)
      exact isRounded_readDigits ht hds hwide h fun hlost =>
        hloses ⟨front, rest, h, hlost.1, hzeros.mp hlost.2⟩

/-! ## Texts -/

variable {c : Char} {radix : Nat}

theorem radix?_eq (hc : radix? c = some radix) :
    (∃ t, radix = 2 ^ t ∧ t < 53) ∧ isBlank c = false := by
  unfold radix? at hc
  split at hc
  · exact ⟨⟨4, (Option.some.inj hc).symm, by decide⟩, rfl⟩
  · exact ⟨⟨4, (Option.some.inj hc).symm, by decide⟩, rfl⟩
  · exact ⟨⟨3, (Option.some.inj hc).symm, by decide⟩, rfl⟩
  · exact ⟨⟨3, (Option.some.inj hc).symm, by decide⟩, rfl⟩
  · exact ⟨⟨1, (Option.some.inj hc).symm, by decide⟩, rfl⟩
  · exact ⟨⟨1, (Option.some.inj hc).symm, by decide⟩, rfl⟩
  · exact nomatch hc

/-- A digit of any radix is no blank. -/
theorem isBlank_of_hexValue? {d : Char} {v : Nat} (h : Text.hexValue? d = some v) :
    isBlank d = false := by
  unfold Text.hexValue? at h
  split at h
  · next hdigit => exact Text.isBlank_of_isDigit hdigit
  · have hletter : 65 ≤ d.toNat ∧ d.toNat ≤ 102 := by
      split at h
      · next hlower =>
        rw [Bool.and_eq_true, decide_eq_true_eq, decide_eq_true_eq] at hlower
        have hfirst : 97 ≤ d.toNat := hlower.1
        have hlast : d.toNat ≤ 102 := hlower.2
        omega
      · split at h
        · next hupper =>
          rw [Bool.and_eq_true, decide_eq_true_eq, decide_eq_true_eq] at hupper
          have hfirst : 65 ≤ d.toNat := hupper.1
          have hlast : d.toNat ≤ 70 := hupper.2
          omega
        · exact nomatch h
    rw [Bool.eq_false_iff]
    intro hblank
    simp only [isBlank, Bool.or_eq_true, Bool.and_eq_true, decide_eq_true_eq, beq_iff_eq] at hblank
    omega

theorem digit?_spec {d : Char} {v : Nat} (h : digit? radix d = some v) :
    isBlank d = false ∧ v < radix := by
  obtain ⟨hvalue, hless⟩ := Option.filter_eq_some_iff.mp h
  exact ⟨isBlank_of_hexValue? hvalue, of_decide_eq_true hless⟩

theorem mapM_digit?_spec {ds : List Char} {values : List Nat}
    (h : ds.mapM (digit? radix) = some values) :
    (∀ d ∈ ds, isBlank d = false) ∧ ∀ v ∈ values, v < radix := by
  induction ds generalizing values with
  | nil =>
    obtain rfl := Option.some.inj h
    exact ⟨fun _ hd => absurd hd List.not_mem_nil, fun _ hv => absurd hv List.not_mem_nil⟩
  | cons d ds ih =>
    simp only [List.mapM_cons, Option.bind_eq_bind, Option.bind_eq_some_iff, Option.pure_def,
      Option.some.injEq] at h
    obtain ⟨v, hv, rest, hrest, rfl⟩ := h
    obtain ⟨hblank, hless⟩ := digit?_spec hv
    obtain ⟨hblanks, hvalues⟩ := ih hrest
    exact ⟨List.forall_mem_cons.mpr ⟨hblank, hblanks⟩, List.forall_mem_cons.mpr ⟨hless, hvalues⟩⟩

/-- A text with a radix and digits of it is read by its digits. -/
theorem read_radix (hc : radix? c = some radix) {ds : List Char} (hne : ds ≠ [])
    {values : List Nat} (hds : ds.mapM (digit? radix) = some values) :
    read (String.ofList ('0' :: c :: ds)) = readDigits radix values := by
  obtain ⟨hblanks, -⟩ := mapM_digit?_spec hds
  have htrim : Text.trim ('0' :: c :: ds) = '0' :: c :: ds := by
    refine Text.trim_eq_self (List.forall_mem_cons.mpr ⟨rfl, ?_⟩)
    exact List.forall_mem_cons.mpr ⟨(radix?_eq hc).2, hblanks⟩
  obtain ⟨d, rest, rfl⟩ := List.exists_cons_of_ne_nil hne
  have hparts : radixParts? ('0' :: c :: d :: rest) = some (radix, d :: rest) := by
    rw [radixParts?, hc]
    rfl
  rw [read, String.toList_ofList, htrim, readTrimmed, if_neg (List.cons_ne_nil _ _), hparts]
  simp [hds]

/-- **Other radixes.** A hexadecimal, octal or binary numeral is read as the number nearest to it if
    and only if it is below 2^64, or too great for any number, or loses nothing that decides. From
    2^64 on, it is read as the number nearest to what is left when the digits that do not count
    are replaced with zeros. -/
theorem read_radix_iff (hc : radix? c = some radix) {ds : List Char} (hne : ds ≠ [])
    {values : List Nat} (hds : ds.mapM (digit? radix) = some values) :
    let n := radixValue radix values
    let x := read (String.ofList ('0' :: c :: ds))
    (IsRounded (n * 2 ^ unitBits : Nat) x ↔
      n < 2 ^ 64 ∨ 2 ^ 1024 ≤ n ∨ ¬LosesDigits radix values) ∧
    ∀ front rest, 2 ^ 64 ≤ n → Splits radix values front rest →
      IsRounded (radixValue radix front * radix ^ rest.length * 2 ^ unitBits : Nat) x := by
  intro n x
  obtain ⟨⟨t, rfl, ht⟩, -⟩ := radix?_eq hc
  obtain ⟨-, hvalues⟩ := mapM_digit?_spec hds
  have hx : x = readDigits (2 ^ t) values := read_radix hc hne hds
  rw [hx]
  refine ⟨isRounded_readDigits_iff ht hvalues, fun front rest hwide h => ?_⟩
  rw [isRounded_iff (Nat.cast_nonneg _)]
  exact readDigits_of_splits ht hvalues hwide h

/-- An octal numeral: its first eighteen digits are half way between two numbers and are rounded
    down, although a one follows. -/
theorem read_radix_iff_halfway :
    let x := read "0O4000000000000000010001"
    ¬IsRounded ((2 ^ 65 + 4097) * 2 ^ unitBits : Nat) x ∧
      IsRounded ((2 ^ 53 + 1) * 8 ^ 4 * 2 ^ unitBits : Nat) x := by
  set front := [4, 0, 0, 0, 0, 0, 0, 0, 0, 0, 0, 0, 0, 0, 0, 0, 0, 1] with hfront
  have hds : "4000000000000000010001".toList.mapM (digit? 8) = some (front ++ [0, 0, 0, 1]) := by
    decide
  have hsplit : Splits 8 (front ++ [0, 0, 0, 1]) front [0, 0, 0, 1] := ⟨rfl, by decide, by decide⟩
  have hvalue : radixValue 8 (front ++ [0, 0, 0, 1]) = 2 ^ 65 + 4097 := by decide
  have hfrontValue : radixValue 8 front = 2 ^ 53 + 1 := by decide
  have htext : String.ofList ('0' :: 'O' :: "4000000000000000010001".toList) =
      "0O4000000000000000010001" := by decide
  have h := read_radix_iff (rfl : radix? 'O' = some 8) (by decide) hds
  simp only [htext, hvalue] at h
  refine ⟨fun hrounded => ?_, ?_⟩
  · rcases h.1.mp hrounded with hnarrow | hlarge | hkept
    · exact absurd hnarrow (by decide)
    · exact absurd hlarge (by decide +kernel)
    · exact hkept ⟨_, _, hsplit, by decide, 1, by decide, by decide⟩
  · have hrounded := h.2 front [0, 0, 0, 1] (by decide) hsplit
    have hlength : [0, 0, 0, 1].length = 4 := rfl
    rwa [hfrontValue, hlength] at hrounded

/-- A hexadecimal numeral that is not read as the number nearest to it. -/
theorem read_radix_off :
    ¬IsRounded (0x20000000000001001 * 2 ^ unitBits : Nat) (read "0x20000000000001001") := by
  rw [isRounded_iff (Nat.cast_nonneg _), ← ofUnits_eq_ofRat]
  decide +kernel

end Decimal

end Formulary
