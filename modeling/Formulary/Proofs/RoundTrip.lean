/-
  Formulary.Proofs.RoundTrip

  Printing a number and reading the text.

  The text of a finite number that is not zero is a numeral, and it denotes the shortest decimal
  that `shortest` found, whichever of the layouts of `plain` and `scientific` it has
  (`exists_numeral?_layout`). So every number is read back from its text, but for the sign of a
  zero (`read_print`). The notation is chosen by the place of the first digit of the decimal,
  and this agrees with the size of the number (`lt_nearestUnits_iff`), also at the two ends, where
  the decimal and the number need not be equal.
-/

import Formulary.Proofs.FewestDigits
import Formulary.Proofs.Numerals

namespace Formulary

open Text (isDigit)

namespace Decimal

open Binary64 (nearestUnits unitBits)

/-- The rational number that a numeral denotes. -/
def Numeral.toRat (n : Numeral) : ℚ :=
  (if n.negative then -1 else 1) * (n.digits * 10 ^ n.exponent)

variable {negative : Bool} {digits : Nat} {exponent : Int} {u : Nat} {ds : List Char}

/-! ## Plain notation -/

/-- Wherever the point is, in front of the digits, among them or behind, the text is a decimal of
    the same number. -/
theorem exists_isDecimal_plain (hds : AllDigits ds) (hne : ds ≠ []) (negative : Bool)
    (exponent : Int) :
    ∃ m places : Nat,
      IsDecimal negative (withSign negative (plain ds (ds.length + exponent))) m places ∧
      (m : ℚ) * 10 ^ (-(places : Int)) = digitsValue ds * 10 ^ exponent := by
  rw [plain]
  split
  · next hfront =>
    -- `0.`, zeros and the digits.
    obtain ⟨k, hk⟩ := Int.eq_ofNat_of_zero_le (by omega : 0 ≤ -((ds.length : Int) + exponent))
    rw [hk, Int.toNat_natCast, List.append_assoc]
    have hpoint : IsDecimal negative
        (withSign negative (List.replicate 1 '0' ++ '.' :: (List.replicate k '0' ++ ds))) _ _ :=
      .point (allDigits_zeros 1) ((allDigits_zeros k).append hds) (by simp)
    refine ⟨_, _, hpoint, ?_⟩
    have hplaces : -((List.replicate k '0' ++ ds).length : Int) = exponent := by
      rw [List.length_append, List.length_replicate]
      omega
    rw [digitsValue_zeros_append, digitsValue_zeros_append, hplaces]
  · split
    · next hbehind =>
      -- The digits and zeros, without a point.
      obtain ⟨k, hk⟩ := Int.eq_ofNat_of_zero_le (by omega : 0 ≤ exponent)
      have hzeros : ((ds.length : Int) + exponent - ds.length).toNat = k := by omega
      rw [hzeros]
      refine ⟨_, 0, .whole (hds.append (allDigits_zeros k)) (by simp [hne]), ?_⟩
      rw [digitsValue_append_zeros, hk]
      push_cast
      simp
    · next hamong =>
      have hwhole : AllDigits (ds.take (ds.length + exponent).toNat) :=
        fun d hd => hds d (List.mem_of_mem_take hd)
      have hplaces : AllDigits (ds.drop (ds.length + exponent).toNat) :=
        fun d hd => hds d (List.mem_of_mem_drop hd)
      refine ⟨_, _, .point hwhole hplaces (by rwa [List.take_append_drop]), ?_⟩
      have hlength : -((ds.drop (ds.length + exponent).toNat).length : Int) = exponent := by
        rw [List.length_drop]
        omega
      rw [List.take_append_drop, hlength]

/-! ## Scientific notation -/

/-- The digits behind the first one are places, which the exponent makes up for. -/
theorem numeral?_scientific (hds : AllDigits ds) (hne : ds ≠ []) (negative : Bool)
    (exponent : Int) :
    numeral? (withSign negative (scientific ds (ds.length + exponent))) =
      some ⟨negative, digitsValue ds, exponent⟩ := by
  obtain ⟨d, fs, rfl⟩ := List.exists_cons_of_ne_nil hne
  have hd : AllDigits [d] := fun c hc => hds c (List.mem_singleton.mp hc ▸ List.mem_cons_self)
  have hfs : AllDigits fs := fun c hc => hds c (List.mem_cons_of_mem d hc)
  -- The text is the first digit, the places if there are more digits, and the exponent.
  set e := ((d :: fs).length : Int) + exponent - 1 with he
  set tail := 'e' :: (if 0 ≤ e then '+' else '-') :: Nat.toDigits 10 e.natAbs with htail
  have hstops : Stops isDigit tail := by
    rintro _ ⟨⟩
    rfl
  have htext : scientific (d :: fs) ((d :: fs).length + exponent) =
      [d] ++ ((if fs = [] then [] else '.' :: fs) ++ tail) := by
    have hfraction : (if (d :: fs).length ≤ 1 then [] else '.' :: fs) =
        if fs = [] then [] else '.' :: fs := by
      cases fs <;> simp
    show [d] ++ (if (d :: fs).length ≤ 1 then [] else '.' :: fs) ++
      ['e', if 0 ≤ e then '+' else '-'] ++ Nat.toDigits 10 e.natAbs = _
    rw [hfraction, List.append_assoc, List.append_assoc]
    rfl
  have hplaces : takePlaces ((if fs = [] then [] else '.' :: fs) ++ tail) = (fs, tail) := by
    split
    · next hnil =>
      rw [hnil]
      rfl
    · exact takePlaces_point hfs hstops
  have hrest : Stops isDigit ((if fs = [] then [] else '.' :: fs) ++ tail) := by
    split
    · exact hstops
    · exact stops_point _
  have hparts := numeral?_of_parts (takeSign_withSign (head?_digits hd (List.cons_ne_nil d []) _)
    negative) hd hrest hplaces (List.cons_ne_nil d fs) (exponent?_written e)
  have hexponent : e - fs.length = exponent := by
    rw [he, List.length_cons]
    omega
  rw [htext, hparts, hexponent, List.singleton_append]

theorem mem_scientific (hds : AllDigits ds) {place : Int} {d : Char}
    (h : d ∈ scientific ds place) : isDigit d = true ∨ d ∈ ['.', '-', '+', 'e'] := by
  simp only [scientific, List.mem_append] at h
  rcases h with ((h | h) | h) | h
  · exact .inl (hds d (List.mem_of_mem_take h))
  · split at h
    · exact absurd h List.not_mem_nil
    · rcases List.mem_cons.mp h with rfl | h
      · exact .inr (by decide)
      · exact .inl (hds d (List.mem_of_mem_drop h))
  · right
    split at h <;> simp only [List.mem_cons, List.not_mem_nil, or_false] at h ⊢ <;> tauto
  · exact .inl (isDigit_of_mem_toDigits h)

/-! ## Either notation -/

/-- **Layout.** The text of a decimal is a numeral that denotes it. -/
theorem exists_numeral?_layout (negative : Bool) (digits : Nat) (exponent : Int) :
    ∃ n, numeral? (withSign negative (layout digits exponent)) = some n ∧
      n.negative = negative ∧ (n.digits : ℚ) * 10 ^ n.exponent = digits * 10 ^ exponent := by
  have hds := allDigits_toDigits digits
  rw [layout]
  split
  · obtain ⟨m, places, hdecimal, hvalue⟩ :=
      exists_isDecimal_plain hds Nat.toDigits_ne_nil negative exponent
    rw [digitsValue_toDigits] at hvalue
    exact ⟨_, hdecimal.numeral?_eq, rfl, hvalue⟩
  · refine ⟨_, numeral?_scientific hds Nat.toDigits_ne_nil negative exponent, rfl, ?_⟩
    rw [digitsValue_toDigits]

theorem trim_layout (negative : Bool) (digits : Nat) (exponent : Int) :
    Text.trim (withSign negative (layout digits exponent)) =
      withSign negative (layout digits exponent) := by
  rw [layout]
  split
  · obtain ⟨m, places, hdecimal, -⟩ :=
      exists_isDecimal_plain (allDigits_toDigits digits) Nat.toDigits_ne_nil negative exponent
    exact hdecimal.trim_eq
  · refine trim_eq_of_numeral fun d hd => ?_
    rcases mem_withSign hd with rfl | hd
    · exact .inr (by decide)
    · exact mem_scientific (allDigits_toDigits digits) hd

/-- There is an exponent if and only if the place of the first digit is far from the point. -/
theorem not_mem_layout_iff (negative : Bool) (digits : Nat) (exponent : Int) :
    'e' ∉ withSign negative (layout digits exponent) ↔
      -6 < digitCount digits + exponent ∧ digitCount digits + exponent ≤ 21 := by
  rw [layout]
  split
  · next hplain =>
    obtain ⟨m, places, hdecimal, -⟩ :=
      exists_isDecimal_plain (allDigits_toDigits digits) Nat.toDigits_ne_nil negative exponent
    exact iff_of_true hdecimal.not_mem_e hplain
  · next hscientific =>
    refine iff_of_false (not_not_intro ?_) hscientific
    simp [withSign, scientific]

/-! ## Reading back -/

/-- The text of a number that is finite and not zero. -/
theorem exists_numeral?_print (negative : Bool) (hu : Representable u) (hne : u ≠ 0) :
    ∃ n, numeral? (print (.finite negative u hu)).toList = some n ∧ n.negative = negative ∧
      (n.digits : ℚ) * 10 ^ n.exponent = (shortest u).1 * 10 ^ (shortest u).2 := by
  rw [toList_print negative hu hne]
  exact exists_numeral?_layout negative _ _

theorem read_print_of_ne_zero (negative : Bool) (hu : Representable u) (hne : u ≠ 0) :
    read (print (.finite negative u hu)) = .finite negative u hu := by
  obtain ⟨n, hn, hnegative, hvalue⟩ := exists_numeral?_print negative hu hne
  have htrim : Text.trim (print (.finite negative u hu)).toList =
      (print (.finite negative u hu)).toList := by
    rw [toList_print negative hu hne]
    exact trim_layout negative _ _
  have hunits : unitsOf n.digits n.exponent = unitsOf (shortest u).1 (shortest u).2 := by
    rw [unitsOf, unitsOf, hvalue]
  have hreads := (shortens_shortest hu).reads
  have hlt : nearestUnits (unitsOf (shortest u).1 (shortest u).2) < Binary64.bound :=
    hreads.symm ▸ hu.1
  -- The layout does not change the number, so it is the decimal itself that is rounded.
  rw [← htrim] at hn
  rw [read_of_numeral? hn, hunits, hnegative, Binary64.ofRat_of_lt negative hlt]
  simp only [hreads]

/-- Both zeros are printed alike. -/
theorem print_of_isZero {x : Binary64} (h : x.isZero = true) : print x = "0" := by
  cases x with
  | nan => exact absurd h Bool.false_ne_true
  | infinite negative => exact absurd h Bool.false_ne_true
  | finite negative u hu => rw [print, if_pos (beq_iff_eq.mp h)]

theorem read_zero : read "0" = .zero := read_of_whole (by decide)

theorem read_one : read "1" = .ofNat 1 := read_of_whole (by decide)

/-- **Round trip.** A number is read back from its text; both zeros are read as the positive one. -/
theorem read_print (x : Binary64) : read (print x) = if x.isZero then .zero else x := by
  cases x with
  | nan => rfl
  | infinite negative => cases negative <;> rfl
  | finite negative u hu =>
    by_cases hne : u = 0
    · have hzero : (Binary64.finite negative u hu).isZero = true := beq_iff_eq.mpr hne
      rw [print_of_isZero hzero, hzero, if_pos rfl, read_zero]
    · have hzero : (Binary64.finite negative u hu).isZero = false := beq_eq_false_iff_ne.mpr hne
      rw [hzero, if_neg Bool.false_ne_true]
      exact read_print_of_ne_zero negative hu hne

/-! ## The ends of plain notation -/

theorem unitsOf_lt_iff (hdigits : digits ≠ 0) (place : Int) :
    unitsOf digits exponent < unitsOf 1 place ↔ digitCount digits + exponent ≤ place := by
  have hunit : (0 : ℚ) < 2 ^ unitBits := by positivity
  have hpower := unitsOf_ten_pow 0 place
  rw [pow_zero, Nat.cast_zero, add_zero] at hpower
  rw [hpower]
  constructor
  · intro h
    -- The decimal is not below the power of ten at its first digit.
    have hfirst : (10 : ℚ) ^ (digitCount digits - 1 + exponent) * 2 ^ unitBits ≤
        unitsOf digits exponent := by
      have hlow := pow_length_toDigits_le (Nat.pos_of_ne_zero hdigits)
      have hcount := digitCount_pos digits
      have hcast : (digitCount digits : Int) - 1 = (digitCount digits - 1 : ℕ) := by omega
      rw [unitsOf, hcast, zpow_add₀ (by norm_num), zpow_natCast]
      gcongr
      exact_mod_cast hlow
    have hpow := lt_of_mul_lt_mul_right (hfirst.trans_lt h) hunit.le
    have hlt := (zpow_lt_zpow_iff_right₀ (by norm_num : (1 : ℚ) < 10)).mp hpow
    omega
  · intro h
    have hlt : unitsOf digits exponent < 10 ^ ((digitCount digits : Int) + exponent) * 2 ^ unitBits :=
      unitsOf_lt digits exponent
    have hpow : (10 : ℚ) ^ ((digitCount digits : Int) + exponent) ≤ 10 ^ place :=
      zpow_le_zpow_right₀ (by norm_num) h
    exact hlt.trans_le (mul_le_mul_of_nonneg_right hpow hunit.le)

/-- Where a power of ten is its own shortest decimal, a magnitude is below its rounding if and only
    if the decimal of the magnitude is below the power. -/
theorem lt_nearestUnits_iff (hu : Representable u) {place : Int}
    (h : shortest (nearestUnits (unitsOf 1 place)) = (1, place)) :
    u < nearestUnits (unitsOf 1 place) ↔
      unitsOf (shortest u).1 (shortest u).2 < unitsOf 1 place := by
  have hreads := (shortens_shortest hu).reads
  constructor
  · intro hlt
    by_contra hle
    have hmono := Binary64.nearestUnits_mono (unitsOf_nonneg 1 place) (not_lt.mp hle)
    rw [hreads] at hmono
    omega
  · intro hlt
    have hmono := Binary64.nearestUnits_mono (unitsOf_nonneg _ _) hlt.le
    rw [hreads] at hmono
    -- Were the magnitude the rounding of the power, its decimal would be the power.
    refine lt_of_le_of_ne hmono fun heq => ?_
    rw [heq, h] at hlt
    exact lt_irrefl _ hlt

theorem nearestUnits_millionth : nearestUnits (unitsOf 1 (-6)) =
    Binary64.roundUnits (Nat.pow 2 unitBits) (Nat.pow 10 6) := by
  rw [Binary64.roundUnits_eq_nearestUnits _ (by decide)]
  congr 1
  have hneg := unitsOf_neg 1 6
  rw [Nat.cast_one, one_mul] at hneg
  simp only [Nat.pow_eq]
  push_cast at hneg ⊢
  exact hneg

theorem fits_fixedLimit : Binary64.Fits fixedLimit := by
  have hfive : fixedLimit = 5 ^ 21 * 2 ^ (21 + unitBits) := by
    rw [fixedLimit_eq, Nat.pow_add, ← Nat.mul_assoc, ← Nat.mul_pow]
  rw [hfive]
  exact Binary64.fits_mul_two_pow (by decide) _

theorem nearestUnits_sextillion : nearestUnits (unitsOf 1 21) = fixedLimit := by
  have hpower : unitsOf 1 21 = (fixedLimit : Nat) := by
    rw [fixedLimit_eq, unitsOf]
    push_cast
    rw [one_mul]
  rw [hpower, Binary64.nearestUnits_natCast fits_fixedLimit]

/-- **Notation.** There is no exponent in the text if and only if the number is from 1e-6 to below
    1e21. -/
theorem not_mem_print_iff (negative : Bool) (hu : Representable u) (hne : u ≠ 0) :
    'e' ∉ (print (.finite negative u hu)).toList ↔
      nearestUnits (unitsOf 1 (-6)) ≤ u ∧ u < nearestUnits (unitsOf 1 21) := by
  have hleast : shortest (nearestUnits (unitsOf 1 (-6))) = (1, -6) := by
    rw [nearestUnits_millionth]
    decide +kernel
  have hlimit : shortest (nearestUnits (unitsOf 1 21)) = (1, 21) := by
    rw [nearestUnits_sextillion]
    decide +kernel
  have hdigits : (shortest u).1 ≠ 0 := by
    intro hzero
    have hreads := (shortens_shortest hu).reads
    rw [hzero, unitsOf_zero, Binary64.nearestUnits_zero] at hreads
    exact hne hreads.symm
  rw [toList_print negative hu hne, not_mem_layout_iff, ← not_le, ← unitsOf_lt_iff hdigits,
    ← unitsOf_lt_iff hdigits, ← lt_nearestUnits_iff hu hleast, ← lt_nearestUnits_iff hu hlimit, not_lt]

/-! ## Numbers -/

/-- Every number but `nan` is equal to itself, and the two zeros are equal. -/
theorem compare?_read_print {x : Binary64} (h : x.isNaN = false) :
    (read (print x)).compare? x = some .eq := by
  have hself (n : Int) : compare n n = .eq := compare_eq_iff_eq.mpr rfl
  rw [read_print]
  cases x with
  | nan => exact absurd h (by decide)
  | infinite negative => cases negative <;> rfl
  | finite negative u hu =>
    split
    · next hzero =>
      have hu0 : u = 0 := beq_iff_eq.mp hzero
      rw [Binary64.zero, Binary64.ofNat_eq (by decide), Binary64.compare?_finite, hu0, Nat.zero_mul,
        signedNat_zero, signedNat_zero, hself]
    · rw [Binary64.compare?_finite, hself]

/-- The number that a numeral up to 1e21 is read as. -/
theorem toRat_read {text : String} {digits : Nat} {exponent : Int}
    (hnumeral : numeral? (Text.trim text.toList) = some ⟨false, digits, exponent⟩)
    (hle : unitsOf digits exponent ≤ unitsOf 1 21) :
    (read text).toRat = nearestUnits (unitsOf digits exponent) / 2 ^ unitBits := by
  have hlt : nearestUnits (unitsOf digits exponent) < Binary64.bound :=
    calc nearestUnits (unitsOf digits exponent)
      _ ≤ nearestUnits (unitsOf 1 21) := Binary64.nearestUnits_mono (unitsOf_nonneg _ _) hle
      _ = fixedLimit := nearestUnits_sextillion
      _ < Binary64.bound := fixedLimit_lt_bound
  rw [read_of_numeral? hnumeral, Binary64.ofRat_of_lt false hlt]
  show ((nearestUnits (unitsOf digits exponent) : ℤ) : ℚ) / 2 ^ unitBits = _
  rw [Int.cast_natCast]

theorem toRat_millionth : (read "1e-6").toRat = nearestUnits (unitsOf 1 (-6)) / 2 ^ unitBits := by
  refine toRat_read (by decide) ?_
  have hpow : (10 : ℚ) ^ (-6 : ℤ) ≤ 10 ^ (21 : ℤ) := zpow_le_zpow_right₀ (by norm_num) (by decide)
  rw [unitsOf, unitsOf]
  gcongr

theorem toRat_sextillion : (read "1e21").toRat = nearestUnits (unitsOf 1 21) / 2 ^ unitBits :=
  toRat_read (by decide) le_rfl

/-- **Printing and reading.** Every number is equal to what its text is read as. A finite number that
    is not zero is written as its shortest decimal, without an exponent from 1e-6 to below 1e21. -/
theorem print_inverse (x : Binary64) :
    (x.isNaN = false → (read (print x)).compare? x = some .eq) ∧
    (x.isNaN = true → (read (print x)).isNaN = true) ∧
    (x.isZero = true → print x = "0") ∧
    ∀ negative u hu, x = .finite negative u hu → u ≠ 0 →
      ∃ digits exponent n, IsShortest u digits exponent ∧
        numeral? (print x).toList = some n ∧
        n.toRat = (if negative then -1 else 1) * (digits * 10 ^ exponent) ∧
        ('e' ∉ (print x).toList ↔
          (read "1e-6").toRat ≤ |x.toRat| ∧ |x.toRat| < (read "1e21").toRat) := by
  refine ⟨compare?_read_print, fun hnan => ?_, print_of_isZero, ?_⟩
  · cases x with
    | nan => exact (congrArg Binary64.isNaN (read_print .nan)).trans hnan
    | infinite negative => exact absurd hnan Bool.false_ne_true
    | finite negative u hu => exact absurd hnan Bool.false_ne_true
  · rintro negative u hu rfl hne
    obtain ⟨n, hn, hnegative, hvalue⟩ := exists_numeral?_print negative hu hne
    have hunit : (0 : ℚ) < 2 ^ unitBits := by positivity
    refine ⟨_, _, n, isShortest_shortest hu hne, hn, ?_, ?_⟩
    · rw [Numeral.toRat, hnegative, hvalue]
    · rw [not_mem_print_iff negative hu hne, toRat_millionth, toRat_sextillion, Binary64.abs_toRat,
        div_le_div_iff_of_pos_right hunit, div_lt_div_iff_of_pos_right hunit, Nat.cast_le,
        Nat.cast_lt]

/-- The negative number next to zero, which five times 10^-324 is nearer to than any other decimal
    with one digit. -/
theorem print_inverse_least :
    ∃ (hu : Representable 1) (digits : Nat) (exponent : Int) (n : Numeral),
      print (.finite true 1 hu) = "-5e-324" ∧
      (read "-5e-324").compare? (.finite true 1 hu) = some .eq ∧
      IsShortest 1 digits exponent ∧ numeral? "-5e-324".toList = some n ∧
      n.toRat = -1 * (digits * 10 ^ exponent) := by
  have hu : Representable 1 := by decide +kernel
  have hshort : shortest 1 = (5, -324) := by decide +kernel
  have hprint : print (.finite true 1 hu) = "-5e-324" := by
    rw [print, if_neg one_ne_zero, hshort]
    decide
  obtain ⟨hequal, -, -, hfinite⟩ := print_inverse (.finite true 1 hu)
  obtain ⟨digits, exponent, n, hshortest, hn, hvalue, -⟩ := hfinite true 1 hu rfl one_ne_zero
  rw [hprint] at hequal hn
  exact ⟨hu, digits, exponent, n, hprint, hequal rfl, hshortest, hn, hvalue⟩

end Decimal

end Formulary
