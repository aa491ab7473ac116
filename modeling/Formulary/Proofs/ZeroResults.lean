/-
  Formulary.Proofs.ZeroResults

  Results that are zero, and the conditional that gets them.

  `choose` looks at the text and not at the number: of all texts of zero only `0` fails as a
  condition. Arithmetic and the extremes print their results, and both zeros are printed `0`
  (`zeroText_arithmetic`). The rounding functions write fixed places, and there the sign of a
  negative number stays in front of the zeros (`dropPlaces_printFixed_of_isZero`): what is rounded
  to zero from below is `-0`, which holds as a condition.
-/

import Formulary.Builtin.Logical
import Formulary.Proofs.RoundedDecimals
import Formulary.Proofs.RoundTrip
import Formulary.Proofs.TrailingZeros

namespace Formulary

namespace Binary64

theorem nearestUnits_ne_zero {q : ℚ} (h : 1 ≤ q) : nearestUnits q ≠ 0 := by
  have hone : nearestUnits (1 : Nat) = 1 := nearestUnits_natCast (by decide)
  rw [Nat.cast_one] at hone
  have hmono := nearestUnits_mono zero_le_one h
  omega

theorem isZero_ofRat (negative : Bool) {q : ℚ} (h : (ofRat negative q).isZero = true) :
    nearestUnits q = 0 := by
  rcases Nat.lt_or_ge (nearestUnits q) bound with hlt | hle
  · rw [ofRat_of_lt negative hlt] at h
    exact beq_iff_eq.mp h
  · rw [ofRat_of_le negative hle] at h
    exact absurd h Bool.false_ne_true

end Binary64

namespace Decimal

open Binary64 (nearestUnits unitBits)

variable {negative : Bool} {u : Nat}

/-! ## Printed results -/

/-- If the text is one of zero, then it is `0`. -/
def ZeroText (s : String) : Prop := (read s).isZero = true → s = "0"

theorem zeroText_print (x : Binary64) : ZeroText (print x) := by
  intro hzero
  rw [read_print] at hzero
  split at hzero
  · next hx => exact print_of_isZero hx
  · next hx => exact absurd hzero hx

/-! ## Fixed places -/

theorem withPlaces_zero (places : Nat) :
    withPlaces 0 places = ['0'] ++ if places = 0 then [] else '.' :: List.replicate places '0' := by
  have hzeros : List.replicate (places + 1 - (Nat.toDigits 10 0).length) '0' ++ Nat.toDigits 10 0 =
      '0' :: List.replicate places '0' := by
    rw [Nat.toDigits_zero, List.length_singleton, Nat.add_sub_cancel, ← List.replicate_succ']
    rfl
  have hwhole : ('0' :: List.replicate places '0').length - places = 1 := by
    rw [List.length_cons, List.length_replicate, Nat.add_sub_cancel_left]
  show withPoint places _ = _
  rw [hzeros, withPoint, hwhole]
  split <;> rfl

/-- Zeros with places are one zero without those at the end and the point. -/
theorem dropPlaces_zeros (negative : Bool) (places : Nat) :
    dropPlaces (String.ofList (withSign negative (withPlaces 0 places))) =
      String.ofList (withSign negative ['0']) := by
  rw [withPlaces_zero]
  split
  · refine dropPlaces_of_not_mem ?_
    cases negative <;> decide
  · have hpoint : '.' ∈ withSign negative (['0'] ++ '.' :: List.replicate places '0') := by
      simp [withSign]
    have hzeros : dropEnd '0' (List.replicate places '0') = [] := by
      simp [dropEnd]
    rw [dropPlaces, String.toList_ofList, if_pos hpoint, dropEnd_withSign (by decide),
      dropEnd_append_cons (by decide), hzeros, dropEnd_withSign (by decide)]
    rfl

/-- A decimal of at most a hundred places is not rounded to zero, unless it is zero. -/
theorem nearestUnits_places_ne_zero {n places : Nat} (hn : n ≠ 0) (hplaces : places ≤ 100) :
    nearestUnits (unitsOf n (-places)) ≠ 0 := by
  refine Binary64.nearestUnits_ne_zero ?_
  have hone : (1 : ℚ) ≤ n := by exact_mod_cast Nat.one_le_iff_ne_zero.mpr hn
  have hten : (10 : ℚ) ^ places ≤ 2 ^ unitBits := by
    calc (10 : ℚ) ^ places ≤ 16 ^ places := pow_le_pow_left₀ (by norm_num) (by norm_num) _
      _ = 2 ^ (4 * places) := by rw [pow_mul]; norm_num
      _ ≤ 2 ^ unitBits := pow_le_pow_right₀ one_le_two ((by omega : 4 * places ≤ 400).trans (by decide))
  rw [unitsOf_neg, le_div_iff₀ (by positivity), one_mul]
  calc (10 : ℚ) ^ places ≤ 2 ^ unitBits := hten
    _ ≤ n * 2 ^ unitBits := le_mul_of_one_le_left (by positivity) hone

/-- No number from 10^21 on is read as zero, also if its exponent has lost zeros. -/
theorem not_isZero_dropPlaces_print (hu : Representable u) (h : fixedLimit ≤ u) :
    (read (dropPlaces (print (.finite negative u hu)))).isZero ≠ true := by
  intro hzero
  have hlarge : LargeText negative u (print (.finite negative u hu)) := largeText_print hu h
  rcases hlarge with hplain | ⟨hws, hne, hfs, hexponent, hlead, hs, -⟩
  · rw [dropPlaces_of_not_mem hplain, read_print] at hzero
    split at hzero
    · next hx =>
      have hpos := fixedLimit_pos
      have hu0 : u = 0 := beq_iff_eq.mp hx
      omega
    · next hx => exact hx hzero
  · rename_i ws fs exponent
    -- The digits are as many as the places and more, so they outweigh them.
    have hdrop := dropPlaces_withExponent (by omega) hs
    rw [read_of_withExponent hws hne hfs hdrop] at hzero
    refine Binary64.nearestUnits_ne_zero ?_ (Binary64.isZero_ofRat negative hzero)
    have hdigits : (10 : ℚ) ^ fs.length ≤ digitsValue (ws ++ fs) := by exact_mod_cast hlead
    have hpow : (10 : ℚ) ^ (-(fs.length : Int)) ≤ 10 ^ ((dropZeros exponent).1 - (fs.length : Int)) :=
      zpow_le_zpow_right₀ (by norm_num) (by omega)
    have hone : (1 : ℚ) ≤ digitsValue (ws ++ fs) * 10 ^ ((dropZeros exponent).1 - (fs.length : Int)) := by
      calc (1 : ℚ) = 10 ^ fs.length * 10 ^ (-(fs.length : Int)) := by
            rw [zpow_neg, zpow_natCast, mul_inv_cancel₀ (by positivity)]
        _ ≤ _ := mul_le_mul hdigits hpow (by positivity) (by positivity)
    rw [unitsOf]
    exact one_le_mul_of_one_le_of_one_le hone (one_le_pow₀ one_le_two)

/-- A number whose text without the zeros at its end is read as zero rounds to no place. -/
theorem roundedPlaces_of_isZero (hu : Representable u) (places : Int)
    (h : (read (dropPlaces (printFixed (.finite negative u hu) places))).isZero = true) :
    u < fixedLimit ∧ roundedPlaces u (min places.toNat 100) = 0 := by
  rcases Nat.lt_or_ge u fixedLimit with hlt | hge
  · refine ⟨hlt, ?_⟩
    rw [printFixed_of_lt hu places hlt, read_dropPlaces_withPlaces] at h
    by_contra hne
    exact nearestUnits_places_ne_zero hne (min_le_right _ _) (Binary64.isZero_ofRat _ h)
  · rw [printFixed_of_le hu places hge] at h
    exact absurd h (not_isZero_dropPlaces_print hu hge)

/-- **Zeros with a sign.** A number that is written as zero has the text of zero with its own
    sign. -/
theorem dropPlaces_printFixed_of_isZero (x : Binary64) (places : Int)
    (h : (read (dropPlaces (printFixed x places))).isZero = true) :
    dropPlaces (printFixed x places) = if x.toRat < 0 then "-0" else "0" := by
  cases x with
  | nan =>
    have hnan : (read (dropPlaces (print .nan))).isZero = false := rfl
    exact absurd (hnan.symm.trans h) Bool.false_ne_true
  | infinite negative =>
    have hinfinite : (read (dropPlaces (print (.infinite negative)))).isZero = false := by
      cases negative <;> rfl
    exact absurd (hinfinite.symm.trans h) Bool.false_ne_true
  | finite negative u hu =>
    obtain ⟨hlt, hzero⟩ := roundedPlaces_of_isZero hu places h
    rw [printFixed_of_lt hu places hlt, hzero, dropPlaces_zeros]
    simp only [Binary64.toRat_neg_iff]
    by_cases hsign : negative = true ∧ u ≠ 0
    · rw [if_pos hsign, hsign.1, decide_eq_true hsign.2]
      rfl
    · have hfalse : (negative && decide (u ≠ 0)) = false := by
        rw [Bool.eq_false_iff, Ne, Bool.and_eq_true, decide_eq_true_eq]
        exact hsign
      rw [if_neg hsign, hfalse]
      rfl

/-! ## Whole multiples of a place -/

theorem roundedPlaces_mono {v : Nat} (h : u ≤ v) (places : Nat) :
    roundedPlaces u places ≤ roundedPlaces v places :=
  Nat.div_le_div_right (Nat.add_le_add_right (Nat.mul_le_mul_right _ (Nat.mul_le_mul_left 2 h)) _)

theorem exists_finite_of_toRat_neg {x : Binary64} (h : x.toRat < 0) :
    ∃ u hu, x = .finite true u hu ∧ u ≠ 0 := by
  cases x with
  | nan => exact absurd h (lt_irrefl 0)
  | infinite negative => exact absurd h (lt_irrefl 0)
  | finite negative u hu =>
    obtain ⟨rfl, hne⟩ := (Binary64.toRat_neg_iff negative hu).mp h
    exact ⟨u, hu, rfl, hne⟩

/-- Whole parts of finite numbers are multiples of one, and the other numbers stay. -/
theorem whole_eq {whole : Binary64 → Binary64} (hwhole : whole ∈ [Binary64.ceil, Binary64.floor])
    (x : Binary64) :
    (whole x = x ∧ ∀ s u hu, x ≠ .finite s u hu) ∨
      ∃ s k, whole x = .ofUnits s (k * Nat.pow 2 unitBits) := by
  simp only [List.mem_cons, List.not_mem_nil, or_false] at hwhole
  cases x with
  | nan => rcases hwhole with rfl | rfl <;> exact .inl ⟨rfl, fun _ _ _ => nofun⟩
  | infinite negative => rcases hwhole with rfl | rfl <;> exact .inl ⟨rfl, fun _ _ _ => nofun⟩
  | finite negative u hu => rcases hwhole with rfl | rfl <;> exact .inr ⟨_, _, rfl⟩

/-- A quotient of a number that is not finite is not finite. -/
theorem div_ne_finite {x : Binary64} (hx : ∀ s u hu, x ≠ .finite s u hu) {d : Nat} (hd : d ≤ 10)
    {s : Bool} {v : Nat} {hv : Representable v} : x.div (.ofNat (10 ^ d)) ≠ .finite s v hv := by
  have hten : 10 ^ d < 2 ^ 53 := (Nat.pow_le_pow_right (by decide) hd).trans_lt (by decide)
  rw [Binary64.ofNat_eq hten]
  cases x with
  | nan => exact nofun
  | infinite negative => exact nofun
  | finite negative u hu => exact absurd rfl (hx negative u hu)

/-- What is not below one is not rounded to zero at the places of the power of ten that it is
    divided by: the quotient of one is one at the last place. -/
theorem roundedPlaces_quotient_ne_zero {d w : Nat} (hd : d ≤ 10) (hw : 2 ^ unitBits ≤ w) :
    roundedPlaces (nearestUnits (w / 10 ^ d)) d ≠ 0 := by
  have hleast : unitsOf 1 (-d) ≤ w / 10 ^ d := by
    rw [unitsOf_neg, Nat.cast_one, one_mul]
    exact div_le_div_of_nonneg_right (by exact_mod_cast hw) (by positivity)
  have hmono := Binary64.nearestUnits_mono (unitsOf_nonneg 1 (-d)) hleast
  have hplace := roundedPlaces_mono hmono d
  rw [roundedPlaces_nearestUnits hd (by decide)] at hplace
  exact Nat.one_le_iff_ne_zero.mp hplace

/-- A whole number over a power of ten is zero, or it is not rounded to zero at the places of this
    power. -/
theorem not_neg_of_whole {whole : Binary64 → Binary64}
    (hwhole : whole ∈ [Binary64.ceil, Binary64.floor]) {d : Nat} (hd : d ≤ 10) (x : Binary64)
    (h : (read (dropPlaces (printFixed ((whole x).div (.ofNat (10 ^ d))) d))).isZero = true) :
    ¬((whole x).div (.ofNat (10 ^ d))).toRat < 0 := by
  intro hneg
  -- A negative quotient is a finite number, so the whole number is finite too.
  obtain ⟨v, hv, hquotient, hne⟩ := exists_finite_of_toRat_neg hneg
  rcases whole_eq hwhole x with ⟨hstays, hx⟩ | ⟨s, k, hk⟩
  · rw [hstays] at hquotient
    exact div_ne_finite hx hd hquotient
  · rw [hquotient] at h
    obtain ⟨-, hzero⟩ := roundedPlaces_of_isZero hv d h
    have hplaces : min (d : Int).toNat 100 = d := by omega
    rw [hplaces] at hzero
    rw [hk, Binary64.ofUnits_eq_ofRat] at hquotient
    rcases Nat.lt_or_ge (nearestUnits (k * Nat.pow 2 unitBits : Nat)) Binary64.bound with hlt | hle
    · rw [Binary64.ofRat_of_lt s hlt, Binary64.finite_div_ofNat_ten_pow s hd] at hquotient
      have hv' := Binary64.nearestUnits_of_ofRat hquotient
      rcases Nat.eq_zero_or_pos k with rfl | hpos
      · rw [Nat.zero_mul, Nat.cast_zero, Binary64.nearestUnits_zero, Nat.cast_zero, zero_div,
          Binary64.nearestUnits_zero] at hv'
        exact hne hv'.symm
      · have hone : 2 ^ unitBits ≤ nearestUnits (k * Nat.pow 2 unitBits : Nat) :=
          Binary64.le_nearestUnits (Binary64.representable_two_pow (by decide)).2
            (Nat.le_mul_of_pos_left _ hpos)
        rw [← hv'] at hzero
        exact roundedPlaces_quotient_ne_zero hd hone hzero
    · rw [Binary64.ofRat_of_le s hle] at hquotient
      exact div_ne_finite (x := .infinite s) (fun _ _ _ => nofun) hd hquotient

end Decimal

namespace Builtin

open Decimal (read print normalize dropPlaces ZeroText zeroText_print)

/-! ## Arithmetic and extremes -/

theorem zeroText_notANumber : ZeroText notANumber := by
  have hnan : (read notANumber).isZero = false := rfl
  exact fun h => absurd (hnan.symm.trans h) Bool.false_ne_true

section

variable {op : Binary64 → Binary64 → String}

theorem zeroText_onNumbers (hop : ∀ x y, ZeroText (op x y)) (a b : String) :
    ZeroText (onNumbers op a b) := by
  rw [onNumbers]
  split
  · exact zeroText_notANumber
  · exact hop _ _

/-- What is true of the start of a fold and of every step is true of its result. -/
theorem zeroText_foldl (hop : ∀ x y, ZeroText (op x y)) {start : String} (h : ZeroText start)
    (args : List String) : ZeroText (args.foldl (onNumbers op) start) :=
  List.foldlRecOn args _ h fun _ _ _ _ => zeroText_onNumbers hop _ _

end

theorem zeroText_add (args : List String) : ZeroText (add args) := by
  have hstart : ZeroText "0" := fun _ => rfl
  exact zeroText_foldl (fun _ _ => zeroText_print _) hstart args

theorem zeroText_multiply (args : List String) : ZeroText (multiply args) := by
  have hstart : ZeroText "1" := by
    have hone : (read "1").isZero = false := by
      rw [Decimal.read_one, Binary64.ofNat_eq (by decide)]
      exact beq_eq_false_iff_ne.mpr (by positivity)
    exact fun h => absurd (hone.symm.trans h) Bool.false_ne_true
  exact zeroText_foldl (fun _ _ => zeroText_print _) hstart args

theorem zeroText_subtract (args : List String) : ZeroText (subtract args) := by
  cases args with
  | nil => exact zeroText_notANumber
  | cons s rest =>
    show ZeroText (onNumbers (fun x y => normalize (x.sub y)) s (add rest))
    exact zeroText_onNumbers (fun _ _ => zeroText_print _) s (add rest)

theorem zeroText_divide (args : List String) : ZeroText (divide args) := by
  cases args with
  | nil => exact zeroText_notANumber
  | cons s rest =>
    show ZeroText (onNumbers (fun x y => if y.isZero then notANumber else normalize (x.div y)) s
      (multiply rest))
    refine zeroText_onNumbers (fun x y => ?_) s (multiply rest)
    split
    · exact zeroText_notANumber
    · exact zeroText_print _

theorem zeroText_pow (args : List String) : ZeroText (pow args) :=
  zeroText_onNumbers (fun _ _ => zeroText_print _) _ _

/-- The first argument is one of those that are folded, so nothing comes back unprinted. -/
theorem zeroText_extreme (pick : Binary64 → Binary64 → Binary64) (args : List String) :
    ZeroText (extreme pick args) := by
  cases args with
  | nil => exact zeroText_notANumber
  | cons s rest =>
    exact zeroText_foldl (fun _ _ => zeroText_print _)
      (zeroText_onNumbers (fun _ _ => zeroText_print _) s s) rest

theorem zeroText_arithmetic {f : List String → String}
    (hf : f ∈ [add, multiply, subtract, divide, pow, max, min]) (args : List String) :
    ZeroText (f args) := by
  simp only [List.mem_cons, List.not_mem_nil, or_false] at hf
  rcases hf with rfl | rfl | rfl | rfl | rfl | rfl | rfl
  · exact zeroText_add args
  · exact zeroText_multiply args
  · exact zeroText_subtract args
  · exact zeroText_divide args
  · exact zeroText_pow args
  · exact zeroText_extreme _ args
  · exact zeroText_extreme _ args

/-! ## Rounding -/

/-- The number that `round` writes with fixed places. -/
def shifted (args : List String) : Binary64 := Binary64.epsilon.add (read (args.headD ""))

/-- The number that `scaledBy` writes with fixed places. -/
def rescaled (whole : Binary64 → Binary64) (args : List String) : Binary64 :=
  let scale := (Binary64.ofNat 10).power (places args[1]?)
  (whole ((read (args.headD "")).mul scale)).div scale

/-- The rounding functions, each with the number that it writes with fixed places. -/
def roundings : List ((List String → String) × (List String → Binary64)) :=
  [(round, shifted), (ceil, rescaled Binary64.ceil), (floor, rescaled Binary64.floor)]

theorem rounded_of_flag {args : List String} (h : flag args[2]? = false) (x : Binary64) :
    rounded x args =
      dropPlaces (Decimal.printFixed x ((places args[1]?).toIntWithin (Nat.pow 2 63))) := by
  simp only [rounded, h, Bool.false_eq_true, if_false]

/-- Without arguments there is no number, and else it is written with fixed places. -/
theorem rounding_eq {f : List String → String} {number : List String → Binary64}
    (hf : (f, number) ∈ roundings) (args : List String) :
    f args = notANumber ∨ f args = rounded (number args) args := by
  simp only [roundings, List.mem_cons, Prod.mk.injEq, List.not_mem_nil, or_false] at hf
  cases args with
  | nil => rcases hf with ⟨rfl, rfl⟩ | ⟨rfl, rfl⟩ | ⟨rfl, rfl⟩ <;> exact .inl rfl
  | cons s rest => rcases hf with ⟨rfl, rfl⟩ | ⟨rfl, rfl⟩ | ⟨rfl, rfl⟩ <;> exact .inr rfl

/-- With up to ten whole places, `ceil` and `floor` never write a negative number as zero. -/
theorem not_neg_rescaled {whole : Binary64 → Binary64}
    (hwhole : whole ∈ [Binary64.ceil, Binary64.floor]) {args : List String} {d : Nat} (hd : d ≤ 10)
    (hplaces : places args[1]? = .ofNat d) (hflag : flag args[2]? = false)
    (h : (read (rounded (rescaled whole args) args)).isZero = true) :
    ¬(rescaled whole args).toRat < 0 := by
  rw [rounded_of_flag hflag, hplaces, toIntWithin_ofNat hd] at h
  simp only [rescaled, hplaces, power_ten hd] at h ⊢
  exact Decimal.not_neg_of_whole hwhole hd _ h

/-- **Zero results.** A result of arithmetic or an extreme that is read as zero is the text `0`, so
    that it fails as a condition. A rounded number that is read as zero is `0` too, unless the
    number that is written is negative: then it is `-0`, and holds. With up to ten whole places
    this happens to `round` only. -/
theorem zero_results (args : List String) :
    (∀ f ∈ [add, multiply, subtract, divide, pow, max, min], (read (f args)).isZero = true →
      f args = "0" ∧ ∀ a b, choose [f args, a, b] = b) ∧
    (∀ f number, (f, number) ∈ roundings → flag args[2]? = false → (read (f args)).isZero = true →
      ((number args).toRat < 0 → f args = "-0" ∧ ∀ a b, choose [f args, a, b] = a) ∧
      (0 ≤ (number args).toRat → f args = "0" ∧ ∀ a b, choose [f args, a, b] = b)) ∧
    ∀ f ∈ [ceil, floor], ∀ d ≤ 10, places args[1]? = .ofNat d → flag args[2]? = false →
      (read (f args)).isZero = true → f args = "0" ∧ ∀ a b, choose [f args, a, b] = b := by
  -- A rounding prints its number unless there is none, and a zero loses all its places.
  have hround {f : List String → String} {number : List String → Binary64}
      (hf : (f, number) ∈ roundings) (hflag : flag args[2]? = false)
      (hzero : (read (f args)).isZero = true) :
      f args = rounded (number args) args ∧ f args = if (number args).toRat < 0 then "-0" else "0" := by
    rcases rounding_eq hf args with hnan | hrounded
    · rw [hnan] at hzero
      exact absurd (zeroText_notANumber hzero) (by decide)
    · refine ⟨hrounded, ?_⟩
      rw [rounded_of_flag hflag] at hrounded
      rw [hrounded] at hzero ⊢
      exact Decimal.dropPlaces_printFixed_of_isZero _ _ hzero
  refine ⟨fun f hf hzero => ?_, fun f number hf hflag hzero => ?_, fun f hf d hd hplaces hflag hzero => ?_⟩
  · rw [zeroText_arithmetic hf args hzero]
    exact ⟨rfl, fun _ _ => rfl⟩
  · obtain ⟨-, htext⟩ := hround hf hflag hzero
    refine ⟨fun hneg => ?_, fun hpos => ?_⟩
    · rw [htext, if_pos hneg]
      exact ⟨rfl, fun _ _ => rfl⟩
    · rw [htext, if_neg (not_lt.mpr hpos)]
      exact ⟨rfl, fun _ _ => rfl⟩
  · obtain ⟨whole, hwhole, hmem⟩ : ∃ whole ∈ [Binary64.ceil, Binary64.floor],
        (f, rescaled whole) ∈ roundings := by
      simp only [List.mem_cons, List.not_mem_nil, or_false] at hf
      rcases hf with rfl | rfl
      · exact ⟨Binary64.ceil, by simp, by simp [roundings]⟩
      · exact ⟨Binary64.floor, by simp, by simp [roundings]⟩
    obtain ⟨hrounded, htext⟩ := hround hmem hflag hzero
    rw [hrounded] at hzero
    rw [htext, if_neg (not_neg_rescaled hwhole hd hplaces hflag hzero)]
    exact ⟨rfl, fun _ _ => rfl⟩

/-- The sum of a number and its opposite, a number that is rounded to zero from below, and one
    whose next whole number above is zero. -/
theorem zero_results_below :
    add ["0.3", "-0.3"] = "0" ∧ choose [add ["0.3", "-0.3"], "a", "b"] = "b" ∧
    round ["-0.004", "2"] = "-0" ∧ choose [round ["-0.004", "2"], "a", "b"] = "a" ∧
    ceil ["-0.004", "2"] = "0" ∧ choose [ceil ["-0.004", "2"], "a", "b"] = "b" := by
  have hadd := (zero_results ["0.3", "-0.3"]).1 add (by simp) (by decide +kernel)
  have hfirst : (round, shifted) ∈ roundings := List.mem_cons_self
  have hround := (zero_results ["-0.004", "2"]).2.1 round shifted hfirst (by decide +kernel)
    (by decide +kernel)
  have hceil := (zero_results ["-0.004", "2"]).2.2 ceil (by simp) 2 (by decide) (by decide +kernel)
    (by decide +kernel) (by decide +kernel)
  obtain ⟨htext, hholds⟩ := hround.1 (by decide +kernel)
  exact ⟨hadd.1, hadd.2 _ _, htext, hholds _ _, hceil.1, hceil.2 _ _⟩

/-- A rounded number that is read as zero and holds as a condition, without the flag. -/
theorem zero_result_holds :
    flag (["-0.4", "0"] : List String)[2]? = false ∧
      (read (round ["-0.4", "0"])).isZero = true ∧ round ["-0.4", "0"] = "-0" ∧
      choose [round ["-0.4", "0"], "a", "b"] = "a" := by
  decide +kernel

end Builtin

end Formulary
