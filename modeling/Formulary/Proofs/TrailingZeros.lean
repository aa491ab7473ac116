/-
  Formulary.Proofs.TrailingZeros

  Zeros at the end of a rounded number, kept and taken away.

  `dropPlaces` works on the text. A number below 10^21 is written with fixed places, and the zeros
  at the end of its places do not count. A greater number is written with an exponent, and then
  the zeros at the end of the text are those of the exponent: `1.5e+30` becomes `1.5e+3`. It
  happens if there is a point in front of the exponent (`ExponentEndsInZero`), and then the
  number is never the same (`read_dropped_iff`).
-/

import Formulary.Proofs.FixedPlaces
import Formulary.Proofs.ShortestDigits

namespace Formulary

open Text (isDigit)

namespace Decimal

open Binary64 (ofRat nearestUnits unitBits)

variable {negative : Bool} {u : Nat}

/-! ## Numbers with an exponent -/

/-- The last digit of a number. -/
theorem exists_toDigits_eq (n : Nat) :
    ∃ cs, Nat.toDigits 10 n = cs ++ [Nat.digitChar (n % 10)] := by
  by_cases hn : n < 10
  · exact ⟨[], by rw [Nat.toDigits_of_lt_base hn, Nat.mod_eq_of_lt hn, List.nil_append]⟩
  · exact ⟨_, Nat.toDigits_of_base_le (by decide) (Nat.not_lt.mp hn)⟩

theorem digitChar_mod_eq_zero_iff (n : Nat) : Nat.digitChar (n % 10) = '0' ↔ n % 10 = 0 := by
  have hall : ∀ k < 10, Nat.digitChar k = '0' ↔ k = 0 := by decide
  exact hall _ (Nat.mod_lt n (by decide))

/-- The zeros at the end of a number are those at the end of its digits. -/
theorem dropEnd_toDigits {n : Nat} (hn : n ≠ 0) :
    dropEnd '0' (Nat.toDigits 10 n) = Nat.toDigits 10 (dropZeros n).1 := by
  fun_induction dropZeros n with
  | case1 n h m k heq ih =>
    have hten : 10 ≤ n := by omega
    have hzero : Nat.digitChar (n % 10) = '0' := (digitChar_mod_eq_zero_iff n).mpr h.1
    rw [Nat.toDigits_of_base_le (by decide) hten, hzero, dropEnd_concat_self, ih (by omega), heq]
  | case2 n h =>
    obtain ⟨cs, hcs⟩ := exists_toDigits_eq n
    rw [hcs]
    refine dropEnd_concat ?_ cs
    rw [Ne, digitChar_mod_eq_zero_iff]
    omega

theorem dropZeros_of_mod_ne_zero {n : Nat} (h : n % 10 ≠ 0) : (dropZeros n).1 = n := by
  rw [dropZeros, dif_neg fun hzero => h hzero.1]

theorem dropZeros_lt {n : Nat} (hn : n ≠ 0) (h : n % 10 = 0) : (dropZeros n).1 < n := by
  have hmul := dropZeros_mul n
  have hmod := dropZeros_mod_ne_zero hn
  have hle : (dropZeros n).1 ≤ n := by
    conv_rhs => rw [← hmul]
    exact Nat.le_mul_of_pos_right _ (Nat.pow_pos (by decide))
  refine lt_of_le_of_ne hle fun heq => hmod ?_
  rw [heq, h]

/-- What is taken from the end of a text with a point and an exponent is taken from the exponent. -/
theorem dropPlaces_withExponent {s : String} {ws fs : List Char} {exponent : Nat}
    (hexponent : exponent ≠ 0) (hs : s.toList = withSign negative (withExponent ws fs exponent)) :
    (dropPlaces s).toList = withSign negative (withExponent ws fs (dropZeros exponent).1) := by
  have hpoint : '.' ∈ s.toList := by
    rw [hs, withSign, withExponent]
    simp
  have hdigits := allDigits_toDigits (dropZeros exponent).1
  -- The sign of the exponent stops the zeros, and its first digit stops the point.
  have hsplit (e : Nat) : withExponent ws fs e =
      (ws ++ '.' :: (fs ++ ['e'])) ++ '+' :: Nat.toDigits 10 e := by
    simp [withExponent]
  rw [dropPlaces, if_pos hpoint, String.toList_ofList, hs, hsplit, dropEnd_withSign (by decide),
    dropEnd_append_cons (by decide), dropEnd_toDigits hexponent, dropEnd_withSign (by decide),
    hsplit, List.append_cons, dropEnd_of_allDigits rfl hdigits Nat.toDigits_ne_nil]

/-- A number from 10^21 on is written with an exponent, of at least 21. -/
inductive LargeText (negative : Bool) (u : Nat) (s : String) : Prop where
  | plain (h : '.' ∉ s.toList) : LargeText negative u s
  | point {ws fs : List Char} {exponent : Nat} (hws : AllDigits ws) (hne : ws ≠ [])
      (hfs : AllDigits fs) (hexponent : 21 ≤ exponent)
      (hlead : 10 ^ fs.length ≤ digitsValue (ws ++ fs))
      (hs : s.toList = withSign negative (withExponent ws fs exponent))
      (hu : Shortens u (digitsValue (ws ++ fs)) (exponent - fs.length)) : LargeText negative u s

/-- A smaller exponent makes a number at least ten times smaller. -/
theorem ten_mul_unitsOf_le (digits : Nat) {e e' : Int} (h : e < e') :
    10 * unitsOf digits e ≤ unitsOf digits e' := by
  have hpow : (10 : ℚ) ^ (e + 1) ≤ 10 ^ e' := zpow_le_zpow_right₀ (by norm_num) (by omega)
  rw [zpow_add_one₀ (by norm_num)] at hpow
  rw [unitsOf, unitsOf]
  calc (10 : ℚ) * (digits * 10 ^ e * 2 ^ unitBits)
      = digits * (10 ^ e * 10) * 2 ^ unitBits := by ring
    _ ≤ digits * 10 ^ e' * 2 ^ unitBits := by gcongr

/-- From 10^21 on, the decimal of a magnitude is not below 10^21 either. -/
theorem Shortens.le_of_large {digits : Nat} {exponent : Int} (h : Shortens u digits exponent)
    (hu : fixedLimit ≤ u) : (10 : ℚ) ^ 21 * 2 ^ unitBits ≤ unitsOf digits exponent := by
  rw [fixedLimit_eq] at hu
  exact h.le 21 hu

/-- The first digit of such a decimal stands in the 22nd place or higher. -/
theorem Shortens.place_of_large {digits : Nat} {exponent : Int} (h : Shortens u digits exponent)
    (hu : fixedLimit ≤ u) : 21 < ((Nat.toDigits 10 digits).length : Int) + exponent := by
  have hlt := (h.le_of_large hu).trans_lt (unitsOf_lt digits exponent)
  have hpow : (10 : ℚ) ^ (21 : ℤ) < 10 ^ (((Nat.toDigits 10 digits).length : Int) + exponent) := by
    rw [zpow_ofNat]
    exact lt_of_mul_lt_mul_right hlt (by positivity)
  exact (zpow_lt_zpow_iff_right₀ (by norm_num : (1 : ℚ) < 10)).mp hpow

theorem Shortens.pos_of_large {digits : Nat} {exponent : Int} (h : Shortens u digits exponent)
    (hu : fixedLimit ≤ u) : 0 < digits := by
  refine Nat.pos_of_ne_zero fun hzero => ?_
  have hlow := h.le_of_large hu
  rw [hzero, unitsOf_zero] at hlow
  exact absurd hlow (not_le.mpr (mul_pos (by norm_num) (by positivity)))

/-- A single digit takes no point. -/
theorem point_not_mem_scientific {ds : List Char} (hds : AllDigits ds) (hone : ds.length ≤ 1)
    (place : Int) : '.' ∉ scientific ds place := by
  intro hpoint
  rw [scientific, if_pos hone, List.append_nil, List.mem_append, List.mem_append] at hpoint
  rcases hpoint with (hpoint | hpoint) | hpoint
  · exact absurd (hds _ (List.mem_of_mem_take hpoint)) (by decide)
  · split at hpoint <;> exact absurd hpoint (by decide)
  · exact absurd (isDigit_of_mem_toDigits hpoint) (by decide)

/-- More digits have the point behind the first of them. -/
theorem scientific_eq_withExponent {ds : List Char} (hmore : ¬ds.length ≤ 1) (exponent : Nat) :
    scientific ds (exponent + 1) = withExponent (ds.take 1) (ds.drop 1) exponent := by
  rw [scientific, if_neg hmore, Int.add_sub_cancel, Int.natAbs_natCast,
    if_pos (Int.natCast_nonneg _), withExponent]
  simp

theorem largeText_print (hu : Representable u) (h : fixedLimit ≤ u) :
    LargeText negative u (print (.finite negative u hu)) := by
  have hshortens := shortens_shortest hu
  have hprint := toList_print negative hu (fixedLimit_pos.trans_le h).ne'
  generalize print (.finite negative u hu) = s at hprint ⊢
  generalize (shortest u).1 = digits at hshortens hprint
  generalize (shortest u).2 = e at hshortens hprint
  have hplace := hshortens.place_of_large h
  have hdigits := allDigits_toDigits digits
  have hvalue := digitsValue_toDigits digits
  have hlead := pow_length_toDigits_le (hshortens.pos_of_large h)
  rw [layout] at hprint
  -- From here on only the list of digits counts.
  generalize Nat.toDigits 10 digits = ds at hplace hdigits hvalue hlead hprint
  subst hvalue
  obtain ⟨exponent, hexponent⟩ : ∃ exponent : Nat, (ds.length : Int) + e = exponent + 1 :=
    ⟨(ds.length + e - 1).toNat, by omega⟩
  rw [if_neg (by omega), hexponent] at hprint
  by_cases hone : ds.length ≤ 1
  · refine .plain fun hpoint => ?_
    rw [hprint] at hpoint
    rcases mem_withSign hpoint with hpoint | hpoint
    · exact absurd hpoint (by decide)
    · exact point_not_mem_scientific hdigits hone _ hpoint
  · have hplaces : (exponent : Int) - (ds.length - 1 : Nat) = e := by omega
    rw [scientific_eq_withExponent hone] at hprint
    refine .point (fun d hd => hdigits d (List.mem_of_mem_take hd)) (List.ne_nil_of_length_pos ?_)
      (fun d hd => hdigits d (List.mem_of_mem_drop hd)) (by omega) ?_ hprint ?_
    · rw [List.length_take]
      omega
    · rwa [List.take_append_drop, List.length_drop]
    · rwa [List.take_append_drop, List.length_drop, hplaces]

/-- A number that is at least ten times smaller is not rounded to the same magnitude. -/
theorem ofRat_ne_ofRat {p q : ℚ} (hp : 0 ≤ p) (hq : 2 ^ 52 ≤ q) (hpq : 10 * p ≤ q)
    (hfinite : nearestUnits q < Binary64.bound) : ofRat negative p ≠ ofRat negative q := by
  intro heq
  have hsame : nearestUnits p = nearestUnits q := by
    rw [Binary64.ofRat_of_lt negative hfinite] at heq
    by_cases hlt : nearestUnits p < Binary64.bound
    · rw [Binary64.ofRat_of_lt negative hlt] at heq
      exact (Binary64.finite.inj heq).2
    · rw [Binary64.ofRat_of_le negative (Nat.not_lt.mp hlt)] at heq
      exact nomatch heq
  have hqpos : (0 : ℚ) < q := lt_of_lt_of_le (by positivity) hq
  have hoff := abs_le.mp (Binary64.abs_nearestUnits_sub_le hp hq (by linarith))
  have hoff' := abs_le.mp (Binary64.abs_nearestUnits_sub_le hqpos.le hq le_rfl)
  rw [hsame] at hoff
  linarith [hoff.2, hoff'.1]

/-! ## The two texts of a rounded number -/

/-- A numeral with a point and with an exponent that ends in a zero. -/
def ExponentEndsInZero (s : String) : Prop :=
  '.' ∈ s.toList ∧ 'e' ∈ s.toList ∧ s.toList.getLast? = some '0'

instance (s : String) : Decidable (ExponentEndsInZero s) :=
  inferInstanceAs (Decidable (_ ∧ _ ∧ _))

theorem dropPlaces_of_not_mem {s : String} (h : '.' ∉ s.toList) : dropPlaces s = s := if_neg h

/-- Without a point there is nothing to take away. -/
theorem read_dropPlaces_of_not_mem {s : String} (h : '.' ∉ s.toList) :
    read (dropPlaces s) = read s ↔ ¬ExponentEndsInZero s :=
  iff_of_true (by rw [dropPlaces_of_not_mem h]) fun hzero => h hzero.1

/-- A text with an exponent is cut if and only if the exponent ends in a zero, and then it is the
    text of another number. -/
theorem read_dropPlaces_of_largeText {s : String} (hu : Representable u) (hlarge : fixedLimit ≤ u)
    (h : LargeText negative u s) :
    read (dropPlaces s) = read s ↔ ¬ExponentEndsInZero s := by
  cases h with
  | plain h => exact read_dropPlaces_of_not_mem h
  | @point ws fs exponent hws hne hfs hexponent _ hs hshortens =>
    have hdrop := dropPlaces_withExponent (by omega) hs
    have hread := read_of_withExponent hws hne hfs hs
    have hread' := read_of_withExponent hws hne hfs hdrop
    -- The text ends in the last digit of the exponent.
    obtain ⟨cs, hcs⟩ := exists_toDigits_eq exponent
    have hlast : s.toList.getLast? = some (Nat.digitChar (exponent % 10)) := by
      have hsplit : withExponent ws fs exponent =
          (ws ++ '.' :: (fs ++ 'e' :: '+' :: cs)) ++ [Nat.digitChar (exponent % 10)] := by
        simp [withExponent, hcs]
      rw [hs, withSign, hsplit, ← List.append_assoc, List.getLast?_concat]
    have hmarks : '.' ∈ s.toList ∧ 'e' ∈ s.toList := by
      rw [hs, withSign, withExponent]
      simp
    have hzero : ExponentEndsInZero s ↔ exponent % 10 = 0 := by
      rw [ExponentEndsInZero, hlast, Option.some.injEq, digitChar_mod_eq_zero_iff]
      exact ⟨fun h => h.2.2, fun h => ⟨hmarks.1, hmarks.2, h⟩⟩
    rw [hread, hread', hzero]
    by_cases hmod : exponent % 10 = 0
    · have hless := dropZeros_lt (by omega) hmod
      refine iff_of_false (ofRat_ne_ofRat (unitsOf_nonneg _ _) ?_ ?_ ?_) (not_not_intro hmod)
      · have hfine : (2 : ℚ) ^ 52 ≤ 10 ^ 21 * 2 ^ unitBits :=
          (Binary64.two_pow_le_units (k := 0) (by decide)).trans (by gcongr; norm_num)
        exact hfine.trans (hshortens.le_of_large hlarge)
      · exact ten_mul_unitsOf_le _ (by omega)
      · rw [hshortens.reads]
        exact hu.1
    · rw [dropZeros_of_mod_ne_zero hmod]
      exact iff_of_true rfl hmod

/-- In a number with fixed places there is no exponent. -/
theorem not_exponentEndsInZero_withPlaces (negative : Bool) (n places : Nat) :
    ¬ExponentEndsInZero (String.ofList (withSign negative (withPlaces n places))) := by
  rintro ⟨-, hexponent, -⟩
  rw [String.toList_ofList] at hexponent
  exact (isDecimal_withPlaces negative n places).not_mem_e hexponent

theorem read_dropPlaces_printFixed (x : Binary64) (places : Int) :
    read (dropPlaces (printFixed x places)) = read (printFixed x places) ↔
      ¬ExponentEndsInZero (printFixed x places) := by
  cases x with
  | nan =>
    have hpoint : '.' ∉ "NaN".toList := by decide
    exact read_dropPlaces_of_not_mem hpoint
  | infinite negative =>
    have hpoint : '.' ∉ (print (.infinite negative)).toList := by cases negative <;> decide
    exact read_dropPlaces_of_not_mem hpoint
  | finite negative u hu =>
    rcases Nat.lt_or_ge u fixedLimit with hlt | hle
    · rw [printFixed_of_lt hu places hlt, read_dropPlaces_withPlaces, read_withPlaces]
      exact iff_of_true rfl (not_exponentEndsInZero_withPlaces _ _ _)
    · rw [printFixed_of_le hu places hle]
      exact read_dropPlaces_of_largeText hu hle (largeText_print hu hle)

end Decimal

namespace Builtin

open Decimal (read dropPlaces printFixed ExponentEndsInZero)

theorem read_rounded_iff (x : Binary64) (s digits : String) :
    read (rounded x [s, digits]) = read (rounded x [s, digits, "1"]) ↔
      ¬ExponentEndsInZero (rounded x [s, digits, "1"]) := by
  obtain ⟨hdropped, hkept⟩ := rounded_eq x s digits
  rw [hdropped, hkept]
  exact Decimal.read_dropPlaces_printFixed x _

/-- **Zeros at the end.** Whatever is rounded, and to whatever places, the text without the zeros at
    its end is read as the same number as the text with them, or both as none, unless the text
    has a point and an exponent that ends in a zero. Then it never is. -/
theorem read_dropped_iff (f : List String → String) (hf : f ∈ [round, ceil, floor])
    (x digits : String) :
    read (f [x, digits]) = read (f [x, digits, "1"]) ↔
      ¬ExponentEndsInZero (f [x, digits, "1"]) := by
  simp only [List.mem_cons, List.not_mem_nil, or_false] at hf
  rcases hf with rfl | rfl | rfl
  · rw [round_cons, round_cons]
    exact read_rounded_iff _ x digits
  · rw [ceil, scaledBy_cons, scaledBy_cons]
    exact read_rounded_iff _ x digits
  · rw [floor, scaledBy_cons, scaledBy_cons]
    exact read_rounded_iff _ x digits

/-- Places with zeros among them and behind them, and a greater number whose exponent does not
    end in a zero. -/
theorem read_dropped_iff_places :
    floor ["10.2049", "3", "1"] = "10.204" ∧ read (floor ["10.2049", "3"]) = read "10.204" ∧
    ceil ["-7.0001", "2", "1"] = "-7.00" ∧ read (ceil ["-7.0001", "2"]) = read "-7.00" ∧
    round ["1.5e31", "0", "1"] = "1.5e+31" ∧ read (round ["1.5e31", "0"]) = read "1.5e+31" := by
  have hfloor : floor ["10.2049", "3", "1"] = "10.204" := by decide +kernel
  have hceil : ceil ["-7.0001", "2", "1"] = "-7.00" := by decide +kernel
  have hround : round ["1.5e31", "0", "1"] = "1.5e+31" := by decide +kernel
  refine ⟨hfloor, ?_, hceil, ?_, hround, ?_⟩
  · rw [← hfloor]
    exact (read_dropped_iff floor (by simp) _ _).mpr (by rw [hfloor]; decide +kernel)
  · rw [← hceil]
    exact (read_dropped_iff ceil (by simp) _ _).mpr (by rw [hceil]; decide +kernel)
  · rw [← hround]
    exact (read_dropped_iff round (by simp) _ _).mpr (by rw [hround]; decide +kernel)

/-- The zero of an exponent is taken for one at the end of the places. -/
theorem read_dropped_exponent :
    round ["1.5e30", "0", "1"] = "1.5e+30" ∧ round ["1.5e30", "0"] = "1.5e+3" ∧
      (read (round ["1.5e30", "0"])).compare? (read (round ["1.5e30", "0", "1"])) = some .lt := by
  decide +kernel

end Builtin

end Formulary
