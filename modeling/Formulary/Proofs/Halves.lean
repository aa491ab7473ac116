/-
  Formulary.Proofs.Halves

  Rounding a number and its negative.

  `round` adds 2^-52 to what it rounds, whatever its sign. A positive number moves away from zero
  and a negative one towards it, and then both are rounded alike (`rounded_neg`). So the results
  differ in more than the sign if and only if a half of 10^-places lies between the two moved
  magnitudes, the upper one included (`round_negated`). A number above four does not move: the
  distance is less than half of that to the next number.
-/

import Formulary.Proofs.FixedPlaces
import Formulary.Proofs.NearestNumbers

namespace Formulary

open Text (isBlank isDigit trim)

namespace Decimal

open Binary64 (ofRat unitBits)

/-! ## A minus in front of a text -/

theorem toList_minus (s : String) : ("-" ++ s).toList = '-' :: s.toList := by
  rw [String.toList_append]
  rfl

theorem minus_inj {s t : String} : "-" ++ s = "-" ++ t ↔ s = t := by
  rw [← String.toList_inj, toList_minus, toList_minus, List.cons_inj_right, String.toList_inj]

theorem ofList_minus (cs : List Char) : String.ofList ('-' :: cs) = "-" ++ String.ofList cs := by
  apply String.toList_inj.mp
  rw [toList_minus, String.toList_ofList, String.toList_ofList]

/-- Zeros are taken from the end of a negative number as they are from that of a positive one. -/
theorem dropPlaces_minus (s : String) : dropPlaces ("-" ++ s) = "-" ++ dropPlaces s := by
  have hdrop (c : Char) (hc : c ≠ '-') (cs : List Char) :
      dropEnd c ('-' :: cs) = '-' :: dropEnd c cs := dropEnd_append_cons hc.symm [] cs
  have hmem : '.' ∈ '-' :: s.toList ↔ '.' ∈ s.toList := by simp
  rw [dropPlaces, dropPlaces, toList_minus]
  by_cases h : '.' ∈ s.toList
  · rw [if_pos (hmem.mpr h), if_pos h, hdrop _ (by decide), hdrop _ (by decide), ofList_minus]
  · rw [if_neg (mt hmem.mp h), if_neg h]

/-- A number is written like its negative, with a minus in front. -/
theorem printFixed_true {u : Nat} (hu : Representable u) (hne : u ≠ 0) (places : Int) :
    printFixed (.finite true u hu) places = "-" ++ printFixed (.finite false u hu) places := by
  rcases Nat.lt_or_ge u fixedLimit with hlt | hle
  · rw [printFixed_of_lt hu _ hlt, printFixed_of_lt hu _ hlt, ← ofList_minus, Bool.true_and,
      Bool.false_and, decide_eq_true hne]
    rfl
  · rw [printFixed_of_le hu _ hle, printFixed_of_le hu _ hle]
    simp only [print, if_neg hne]
    rw [← ofList_minus]
    rfl

/-! ## Numerals without a sign -/

/-- The text is a decimal numeral, with an exponent or without one, that starts with a digit or
    with the point. -/
structure Unsigned (s : String) (n : Numeral) : Prop where
  numeral : numeral? (trim s.toList) = some n
  first : ∃ c cs, s.toList = c :: cs ∧ (isDigit c = true ∨ c = '.')

theorem trim_cons {c : Char} (hc : isBlank c = false) (cs : List Char) :
    trim (c :: cs) = c :: (cs.reverse.dropWhile isBlank).reverse := by
  have hlast : [c].dropWhile isBlank = [c] := List.dropWhile_cons_of_neg (by simp [hc])
  rw [trim, List.dropWhile_cons_of_neg (by simp [hc]), List.reverse_cons, List.dropWhile_append,
    hlast]
  split
  · next h =>
    rw [List.isEmpty_iff.mp h]
    rfl
  · rw [List.reverse_append]
    rfl

variable {s : String} {n : Numeral}

theorem Unsigned.exists_cons (h : Unsigned s n) : ∃ c cs, s.toList = c :: cs ∧ isBlank c = false ∧
    (isDigit c = true ∨ c = '.') := by
  obtain ⟨c, cs, hs, hc⟩ := h.first
  refine ⟨c, cs, hs, ?_, hc⟩
  rcases hc with hc | rfl
  · exact Text.isBlank_of_isDigit hc
  · rfl

theorem numeral?_minus {cs : List Char} (hsign : takeSign cs = (false, cs))
    (h : numeral? cs = some n) :
    n.negative = false ∧ numeral? ('-' :: cs) = some { n with negative := true } := by
  have hminus : takeSign ('-' :: cs) = (true, cs) := rfl
  rcases hplaces : takePlaces (cs.dropWhile isDigit) with ⟨fs, tail⟩
  simp only [numeral?, hsign, hminus, hplaces] at h ⊢
  by_cases hempty : ((cs.takeWhile isDigit).isEmpty && fs.isEmpty) = true
  · rw [if_pos hempty] at h
    cases h
  · rw [if_neg hempty] at h ⊢
    obtain ⟨e, he, rfl⟩ := Option.map_eq_some_iff.mp h
    rw [he]
    exact ⟨rfl, rfl⟩

/-- With a minus in front of it the numeral is negative. -/
theorem Unsigned.minus (h : Unsigned s n) :
    n.negative = false ∧ numeral? (trim ("-" ++ s).toList) = some { n with negative := true } := by
  obtain ⟨c, cs, hs, hblank, hc⟩ := h.exists_cons
  have htrim : trim ("-" ++ s).toList = '-' :: trim s.toList := by
    rw [toList_minus, hs, trim_cons (c := '-') rfl, trim,
      List.dropWhile_cons_of_neg (by simp [hblank])]
  rw [htrim]
  refine numeral?_minus ?_ h.numeral
  rw [hs, trim_cons hblank]
  exact takeSign_withSign (by rintro d ⟨⟩; exact hc) false

/-- A numeral and its negative are read as the same magnitude, or both as infinities. -/
theorem Unsigned.read_cases (h : Unsigned s n) :
    (∃ u hu, read s = .finite false u hu ∧ read ("-" ++ s) = .finite true u hu) ∨
      (read s = .infinite false ∧ read ("-" ++ s) = .infinite true) := by
  obtain ⟨hpositive, hminus⟩ := h.minus
  rw [read_of_numeral? h.numeral, read_of_numeral? hminus, hpositive]
  rcases Nat.lt_or_ge (Binary64.nearestUnits (unitsOf n.digits n.exponent)) Binary64.bound with
    hlt | hle
  · exact .inl ⟨_, _, Binary64.ofRat_of_lt false hlt, Binary64.ofRat_of_lt true hlt⟩
  · exact .inr ⟨Binary64.ofRat_of_le false hle, Binary64.ofRat_of_le true hle⟩

/-! ## Halves -/

/-- A positive half of 10^-places, that is an odd multiple of `10^-places / 2`, lies above the one
    number and not above the other. -/
def HalfBetween (places : Nat) (x y : Binary64) : Prop :=
  ∃ k : ℕ, x.toRat < (2 * k + 1) / (2 * 10 ^ places) ∧ (2 * k + 1) / (2 * 10 ^ places) ≤ y.toRat

/-- Two numbers have the same quotient if and only if no multiple lies between them. -/
theorem div_eq_div_iff_not_between {a b c : Nat} (hc : 0 < c) (hab : a ≤ b) :
    a / c = b / c ↔ ¬∃ k, a < (k + 1) * c ∧ (k + 1) * c ≤ b := by
  constructor
  · rintro h ⟨k, hlt, hle⟩
    have hbelow := (Nat.div_lt_iff_lt_mul hc).mpr hlt
    have habove := (Nat.le_div_iff_mul_le hc).mpr hle
    omega
  · intro h
    by_contra hne
    have hle : a / c ≤ b / c := Nat.div_le_div_right hab
    exact h ⟨a / c, (Nat.div_lt_iff_lt_mul hc).mp (Nat.lt_succ_self _),
      (Nat.le_div_iff_mul_le hc).mp (by omega)⟩

/-- Two magnitudes are rounded to the same multiple of 10^-places if and only if no half of it is
    between them. -/
theorem roundedPlaces_eq_iff {lo hi : Nat} (hlo : Representable lo) (hhi : Representable hi)
    (hle : lo ≤ hi) (places : Nat) : roundedPlaces lo places = roundedPlaces hi places ↔
      ¬HalfBetween places (.finite false lo hlo) (.finite false hi hhi) := by
  have hten : (0 : ℚ) < 10 ^ places := by positivity
  have hunit : 0 < 2 ^ unitBits := Nat.two_pow_pos _
  have hcast : (2 : ℚ) ^ unitBits = (2 ^ unitBits : Nat) := by push_cast; rfl
  simp only [roundedPlaces, HalfBetween, Binary64.toRat, hcast, Nat.pow_eq, signedNat]
  generalize 2 ^ unitBits = one at hunit ⊢
  have hone : (0 : ℚ) < one := Nat.cast_pos.mpr hunit
  rw [div_eq_div_iff_not_between (by omega) (by gcongr)]
  refine not_congr (exists_congr fun k => and_congr ?_ ?_)
  · rw [div_lt_div_iff₀ hone (by positivity), ← Nat.cast_lt (α := ℚ)]
    push_cast
    constructor <;> intro h <;> linarith
  · rw [div_le_div_iff₀ (by positivity) hone, ← Nat.cast_le (α := ℚ)]
    push_cast
    constructor <;> intro h <;> linarith

/-- Different multiples of 10^-places are different texts, also without the zeros at their end. -/
theorem dropPlaces_withPlaces_inj (negative : Bool) {m n places : Nat} :
    dropPlaces (String.ofList (withSign negative (withPlaces m places))) =
      dropPlaces (String.ofList (withSign negative (withPlaces n places))) ↔ m = n := by
  refine ⟨fun h => ?_, fun h => by rw [h]⟩
  obtain ⟨digits, kept, -, rfl, hdecimal⟩ := exists_isDecimal_dropPlaces negative m places
  obtain ⟨digits', kept', -, rfl, hdecimal'⟩ := exists_isDecimal_dropPlaces negative n places
  rw [← h] at hdecimal'
  have hnumeral := hdecimal.numeral?_eq.symm.trans hdecimal'.numeral?_eq
  simp only [Option.some.injEq, Numeral.mk.injEq, true_and, neg_inj, Int.natCast_inj] at hnumeral
  rw [hnumeral.1, hnumeral.2]

end Decimal

/-! ## The magnitudes that are rounded -/

namespace Binary64

open Decimal (signedNat)

variable {u : Nat}

theorem two_pow_mul_two_pow {a b c : Nat} (h : c = a + b) : 2 ^ a * 2 ^ b = 2 ^ c := by
  rw [h, Nat.pow_add]

theorem two_pow_add_two_pow {a b : Nat} (h : b = a + 1) : 2 ^ a + 2 ^ a = 2 ^ b := by
  rw [h, Nat.two_pow_succ]

theorem epsilon_add_false (hu : Representable u) :
    epsilon.add (.finite false u hu) = ofRat false (u + 2 ^ 1022 : Nat) := by
  have hsum (e : Nat) : ((e : Int) + signedNat false u).natAbs = u + e ∧
      decide ((e : Int) + signedNat false u < 0) = false := by
    simp only [signedNat, Bool.false_eq_true, if_false, decide_eq_false_iff_not]
    omega
  rw [epsilon_add, (hsum _).1, (hsum _).2]

theorem epsilon_add_true (hu : Representable u) (h : 2 ^ 1022 < u) :
    epsilon.add (.finite true u hu) = ofRat true (u - 2 ^ 1022 : Nat) := by
  have hsum (e : Nat) (he : e < u) : ((e : Int) + signedNat true u).natAbs = u - e ∧
      decide ((e : Int) + signedNat true u < 0) = true := by
    simp only [signedNat, if_true, decide_eq_true_eq]
    omega
  rw [epsilon_add, (hsum _ h).1, (hsum _ h).2]

theorem sub_epsilon (hu : Representable u) (h : 2 ^ 1022 < u) :
    (finite false u hu).sub epsilon = ofRat false (u - 2 ^ 1022 : Nat) := by
  have hsum (e : Nat) (he : e < u) : ((u : Int) + -(e : Int)).natAbs = u - e ∧
      decide ((u : Int) + -(e : Int) < 0) = false := by
    rw [decide_eq_false_iff_not]
    omega
  rw [epsilon_eq, sub, neg, Bool.not_false, add, Bool.false_and, if_neg Bool.false_ne_true,
    if_pos rfl, ofInt_eq_ofRat, (hsum _ h).1, (hsum _ h).2]

theorem lt_of_compare?_ofNat_four (hu : Representable u)
    (h : (finite false u hu).compare? (.ofNat 4) = some .gt) : 2 ^ 1076 < u := by
  have hfour : 4 = 2 ^ 2 := by decide
  have hunits : 2 ^ 2 * 2 ^ unitBits = 2 ^ 1076 := two_pow_mul_two_pow rfl
  rw [ofNat_eq (by decide), compare?_finite, Option.some.injEq, compare_gt_iff_gt] at h
  have hlt : 4 * 2 ^ unitBits < u := Int.ofNat_lt.mp h
  rwa [hfour, hunits] at hlt

/-- Above four the distance is less than half of the grid, so a number that far off is rounded
    back. -/
theorem nearestUnits_of_abs_sub_eq (hu : Representable u) (h : 2 ^ 1076 < u) {v : Nat}
    (hv : |(u : ℚ) - v| = 2 ^ 1022) : nearestUnits v = u := by
  have hgrid : 2 * |(u : ℚ) - v| < 2 ^ 1024 := by
    rw [hv, ← pow_succ']
    exact pow_lt_pow_right₀ one_lt_two (by decide)
  exact nearestUnits_of_large (b := 1024) hu.2 h v.cast_nonneg hgrid

/-- Up to four the sum is at most eight. -/
theorem nearestUnits_add_le (h : u ≤ 2 ^ 1076) :
    nearestUnits (u + 2 ^ 1022 : Nat) ≤ 2 ^ 1077 := by
  have hpow : 2 ^ 1022 ≤ 2 ^ 1076 := Nat.pow_le_pow_right (by decide) (by decide)
  refine nearestUnits_le (representable_two_pow (by decide)).2 ?_
  exact (Nat.add_le_add h hpow).trans_eq (two_pow_add_two_pow rfl)

/-- What a positive number and its negative become: the number `hi` and the negative of `lo`, on
    either side of the number or, above four, the number itself. -/
theorem exists_epsilon_add (hu : Representable u) (h : 2 ^ 1022 < u) :
    ∃ lo hi, ∃ (hlo : Representable lo) (hhi : Representable hi),
      (epsilon.add (.finite false u hu) = .finite false hi hhi ∧
        epsilon.add (.finite true u hu) = .finite true lo hlo ∧
        (finite false u hu).sub epsilon = .finite false lo hlo) ∧
      lo ≠ 0 ∧ lo ≤ hi ∧ (2 ^ 1076 < u → lo = hi) ∧ (u ≤ 2 ^ 1076 → hi ≤ 2 ^ 1077) := by
  have hlo := nearestUnits_le hu.2 (Nat.sub_le u (2 ^ 1022))
  have hhi := le_nearestUnits hu.2 (Nat.le_add_right u (2 ^ 1022))
  have hpos : 1 ≤ nearestUnits (u - 2 ^ 1022 : Nat) :=
    le_nearestUnits (fits_mul_two_pow (m := 1) (by decide) 0) (Nat.sub_pos_of_lt h)
  have hpow : (0 : ℚ) < 2 ^ 1022 := by positivity
  have hup (hu4 : 2 ^ 1076 < u) : nearestUnits (u + 2 ^ 1022 : Nat) = u := by
    refine nearestUnits_of_abs_sub_eq hu hu4 ?_
    push_cast
    rw [sub_add_cancel_left, abs_neg, abs_of_pos hpow]
  have hdown (hu4 : 2 ^ 1076 < u) : nearestUnits (u - 2 ^ 1022 : Nat) = u := by
    refine nearestUnits_of_abs_sub_eq hu hu4 ?_
    rw [Nat.cast_sub h.le]
    push_cast
    rw [sub_sub_cancel, abs_of_pos hpow]
  have hbound : nearestUnits (u + 2 ^ 1022 : Nat) < bound := by
    rcases Nat.lt_or_ge (2 ^ 1076) u with hu4 | hu4
    · rw [hup hu4]
      exact hu.1
    · exact (nearestUnits_add_le hu4).trans_lt (representable_two_pow (by decide)).1
  refine ⟨_, _, representable_nearestUnits (hlo.trans_lt hu.1), representable_nearestUnits hbound,
    ⟨?_, ?_, ?_⟩, by omega, hlo.trans hhi,
    fun hu4 => (hdown hu4).trans (hup hu4).symm, nearestUnits_add_le⟩
  · rw [epsilon_add_false, ofRat_of_lt _ hbound]
  · rw [epsilon_add_true hu h, ofRat_of_lt _ (hlo.trans_lt hu.1)]
  · rw [sub_epsilon hu h, ofRat_of_lt _ (hlo.trans_lt hu.1)]

end Binary64

namespace Builtin

open Binary64 (unitBits)
open Decimal

variable {x digits : String} {d : Nat}

/-- A negative number is rounded like its magnitude. -/
theorem rounded_neg {u : Nat} (hu : Representable u) (hne : u ≠ 0) (s t : String) :
    rounded (.finite true u hu) [s, digits] =
      "-" ++ rounded (.finite false u hu) [t, digits] := by
  rw [(rounded_eq _ s digits).1, (rounded_eq _ t digits).1, printFixed_true hu hne,
    dropPlaces_minus]

/-- Twice the distance is rounded to zero. -/
theorem roundedPlaces_of_le (hd : d ≤ 10) {u : Nat} (h : u ≤ 2 ^ 1023) : roundedPlaces u d = 0 := by
  have heps := Binary64.epsilon_mul_le hd
  have hten : (0 : ℚ) < 10 ^ d := by positivity
  have hunit : (0 : ℚ) < 2 ^ unitBits := by positivity
  have huq : (u : ℚ) ≤ 2 ^ 1022 + 2 ^ 1022 := by
    exact_mod_cast h.trans_eq (Binary64.two_pow_add_two_pow rfl).symm
  have hpos : (0 : ℚ) ≤ u * 10 ^ d := mul_nonneg u.cast_nonneg hten.le
  refine roundedPlaces_of_abs_lt ?_
  have hmul := mul_le_mul_of_nonneg_right huq hten.le
  rw [Nat.cast_zero, zero_mul, sub_zero, abs_of_nonneg hpos]
  generalize (2 : ℚ) ^ 1022 = e at heps hmul
  generalize (2 : ℚ) ^ unitBits = one at heps hunit ⊢
  linarith only [heps, hmul, hunit]

/-- What `round` is for a number of at most 2^-52 is zero. -/
theorem isZero_round_of_le (hd : d ≤ 10) (hdigits : read digits = .ofNat d) {u : Nat}
    (hu : Representable u) (hle : u ≤ 2 ^ 1022) (hread : read x = .finite false u hu) :
    (read (round [x, digits])).isZero = true := by
  have hsum : u + 2 ^ 1022 ≤ 2 ^ 1023 :=
    (Nat.add_le_add_right hle _).trans_eq (Binary64.two_pow_add_two_pow rfl)
  have hhi : Binary64.nearestUnits (u + 2 ^ 1022 : Nat) ≤ 2 ^ 1023 :=
    Binary64.nearestUnits_le (Binary64.representable_two_pow (by decide)).2 hsum
  have hlimit := hhi.trans_lt (two_pow_lt_fixedLimit (by decide))
  have hzero := roundedPlaces_of_le hd hhi
  rw [round_cons, hread, Binary64.epsilon_add_false,
    Binary64.ofRat_of_lt _ (lt_bound_of_lt_fixedLimit hlimit),
    rounded_of_lt hd hdigits _ hlimit, hzero, Bool.false_and, read_dropPlaces_withPlaces,
    unitsOf_zero]
  decide +kernel

/-- Two numbers below 10^21 have the same text if and only if no half is between them. -/
theorem rounded_eq_iff (hd : d ≤ 10) (hdigits : read digits = .ofNat d) {lo hi : Nat}
    (hlo : Representable lo) (hhi : Representable hi) (hle : lo ≤ hi) (hlimit : hi < fixedLimit)
    (s : String) :
    rounded (.finite false lo hlo) [s, digits] = rounded (.finite false hi hhi) [s, digits] ↔
      ¬HalfBetween d (.finite false lo hlo) (.finite false hi hhi) := by
  rw [rounded_of_lt hd hdigits hlo (hle.trans_lt hlimit), rounded_of_lt hd hdigits hhi hlimit,
    Bool.false_and, Bool.false_and, dropPlaces_withPlaces_inj, roundedPlaces_eq_iff hlo hhi hle]

/-- Infinities stay what they are, with a minus or without. -/
theorem round_infinite (digits : String) (d : Nat) (hread : read x = .infinite false)
    (hminus : read ("-" ++ x) = .infinite true) :
    round ["-" ++ x, digits] = "-" ++ round [x, digits] ∧
      ¬HalfBetween d ((read x).sub Binary64.epsilon) (Binary64.epsilon.add (read x)) := by
  have hplus : Binary64.epsilon.add (.infinite false) = .infinite false := by
    rw [Binary64.epsilon_eq, Binary64.add]
  have hneg : Binary64.epsilon.add (.infinite true) = .infinite true := by
    rw [Binary64.epsilon_eq, Binary64.add]
  have hsub : (Binary64.infinite false).sub Binary64.epsilon = .infinite false := by
    rw [Binary64.epsilon_eq, Binary64.sub, Binary64.neg, Binary64.add]
  constructor
  · rw [round_cons, round_cons, hread, hminus, hplus, hneg, (rounded_eq _ _ digits).1,
      (rounded_eq _ _ digits).1]
    change dropPlaces "-Infinity" = "-" ++ dropPlaces "Infinity"
    decide
  · rw [hread, hplus, hsub]
    rintro ⟨k, hlt, hle⟩
    exact absurd hle (not_le.mpr hlt)

/-- **Opposite numbers.** For a numeral without a sign that is not rounded to zero, the result
    of `round` for its negative is its own with a minus in front if and only if no half of
    10^-d lies above the number less 2^-52 and not above the number and 2^-52 together, both
    rounded. Above four both are the number itself, and the results are always opposite. -/
theorem round_negated {n : Numeral} (hx : Unsigned x n) (hd : d ≤ 10)
    (hdigits : read digits = .ofNat d) (hzero : (read (round [x, digits])).isZero = false) :
    (round ["-" ++ x, digits] = "-" ++ round [x, digits] ↔
      ¬HalfBetween d ((read x).sub Binary64.epsilon) (Binary64.epsilon.add (read x))) ∧
    ((read x).compare? (.ofNat 4) = some .gt →
      round ["-" ++ x, digits] = "-" ++ round [x, digits]) := by
  rcases hx.read_cases with ⟨u, hu, hread, hminus⟩ | ⟨hread, hminus⟩
  · -- A magnitude up to the distance itself is rounded to zero, which is excluded.
    have hlt : 2 ^ 1022 < u := by
      by_contra hle
      exact Bool.false_ne_true (hzero.symm.trans
        (isZero_round_of_le hd hdigits hu (Nat.not_lt.mp hle) hread))
    obtain ⟨lo, hi, hlo, hhi, ⟨hplus, hneg, hsub⟩, hne, hle, hlarge, hsmall⟩ :=
      Binary64.exists_epsilon_add hu hlt
    have hround : round [x, digits] = rounded (.finite false hi hhi) [x, digits] := by
      rw [round_cons, hread, hplus]
    have hnegated : round ["-" ++ x, digits] =
        "-" ++ rounded (.finite false lo hlo) [x, digits] := by
      rw [round_cons, hminus, hneg, rounded_neg hlo hne]
    rw [hread, hplus, hsub, hround, hnegated, minus_inj]
    rcases Nat.lt_or_ge (2 ^ 1076) u with hu4 | hu4
    · obtain rfl := hlarge hu4
      exact ⟨iff_of_true rfl ((roundedPlaces_eq_iff hlo hlo le_rfl d).mp rfl), fun _ => rfl⟩
    · have hlimit : hi < fixedLimit := (hsmall hu4).trans_lt (two_pow_lt_fixedLimit (by decide))
      refine ⟨rounded_eq_iff hd hdigits hlo hhi hle hlimit x, fun hfour => ?_⟩
      exact absurd hu4 (Nat.not_le.mpr (Binary64.lt_of_compare?_ofNat_four hu hfour))
  · obtain ⟨hround, hhalf⟩ := round_infinite digits d hread hminus
    exact ⟨iff_of_true hround hhalf, fun _ => hround⟩

/-- `1.5` is a half itself, and `7.5` one above four. -/
theorem round_negated_halves :
    HalfBetween 0 ((read "1.5").sub Binary64.epsilon) (Binary64.epsilon.add (read "1.5")) ∧
      round ["-1.5", "0"] ≠ "-" ++ round ["1.5", "0"] ∧
      round ["-7.5", "0"] = "-" ++ round ["7.5", "0"] := by
  have hhalf : HalfBetween 0 ((read "1.5").sub Binary64.epsilon)
      (Binary64.epsilon.add (read "1.5")) := ⟨1, by decide +kernel, by decide +kernel⟩
  have hsmall : Unsigned "1.5" ⟨false, 15, -1⟩ :=
    ⟨by decide +kernel, '1', ['.', '5'], rfl, .inl rfl⟩
  have hlarge : Unsigned "7.5" ⟨false, 75, -1⟩ :=
    ⟨by decide +kernel, '7', ['.', '5'], rfl, .inl rfl⟩
  have hzero : read "0" = .ofNat 0 := read_of_whole (by decide)
  have hbelow := (round_negated hsmall (by decide) hzero (by decide +kernel)).1
  have habove := (round_negated hlarge (by decide) hzero (by decide +kernel)).2
  exact ⟨hhalf, fun h => hbelow.mp h hhalf, habove (by decide +kernel)⟩

/-- A negative half is rounded towards zero. -/
theorem round_negative_half :
    round ["1.5", "0"] = "2" ∧ round ["-1.5", "0"] = "-1" ∧
      round ["1.555", "2"] = "1.56" ∧ round ["-1.555", "2"] = "-1.55" := by
  decide +kernel

end Builtin

end Formulary
