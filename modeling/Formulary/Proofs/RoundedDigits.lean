/-
  Formulary.Proofs.RoundedDigits

  Rounding on the digits of a number.

  `printFixed` cuts a run of digits and perhaps adds one to what is left, with a carry over
  nines. As numbers, cutting is a division by a power of ten (`digitsValue_take`), the carry adds
  one (`digitsValue_increment`), and the digit behind the cut decides like a comparison with a
  half. Together they give the magnitude in multiples of 10^-places, to the nearest
  (`digitsValue_roundedDigits`).

  A run of digits is known by its number and its length, so the text is the one that
  `withPlaces` makes of the rounded number (`withPoint_roundedDigits`): a carry that makes the
  number longer does not move the point.
-/

import Formulary.Proofs.Numerals
import Formulary.Proofs.ShortestDigits

namespace Formulary

open Text (isDigit)

theorem AllDigits.append {cs ds : List Char} (hcs : AllDigits cs)
    (hds : AllDigits ds) : AllDigits (cs ++ ds) := by
  intro d hd
  rcases List.mem_append.mp hd with hd | hd
  · exact hcs d hd
  · exact hds d hd

theorem AllDigits.reverse {ds : List Char} (h : AllDigits ds) : AllDigits ds.reverse := by
  intro d hd
  exact h d (List.mem_reverse.mp hd)

namespace Decimal

open Binary64 (unitBits)

/-! ## Digits and their number -/

variable {c : Char} {cs ds : List Char}

theorem toNat_of_isDigit (h : isDigit c = true) : 48 ≤ c.toNat ∧ c.toNat ≤ 57 := by
  rw [isDigit, Bool.and_eq_true, decide_eq_true_eq, decide_eq_true_eq] at h
  exact h

/-- The digit of the value of a digit. -/
theorem digitChar_of_isDigit (h : isDigit c = true) : Nat.digitChar (c.toNat - 48) = c := by
  have hc := toNat_of_isDigit h
  apply Char.toNat_inj.mp
  rw [Nat.toNat_digitChar_of_lt_ten (by omega)]
  omega

theorem digitsValue_concat (ds : List Char) (c : Char) :
    digitsValue (ds ++ [c]) = digitsValue ds * 10 + (c.toNat - 48) := by
  have hone : digitsValue [c] = 10 * 0 + (c.toNat - 48) := rfl
  rw [digitsValue_append, List.length_singleton, pow_one, hone, Nat.mul_zero, Nat.zero_add]

theorem digitsValue_lt (h : AllDigits ds) : digitsValue ds < 10 ^ ds.length := by
  induction ds using List.reverseRecOn with
  | nil => decide
  | append_singleton ds c ih =>
    have hlt := ih fun d hd => h d (List.mem_append_left _ hd)
    have hc := toNat_of_isDigit (h c (by simp))
    rw [digitsValue_concat, List.length_append, List.length_singleton, pow_succ]
    omega

/-- The digits of a number go on with the digits behind them. -/
theorem toDigits_append {n : Nat} (hn : 0 < n) (h : AllDigits ds) :
    Nat.toDigits 10 n ++ ds = Nat.toDigits 10 (n * 10 ^ ds.length + digitsValue ds) := by
  induction ds using List.reverseRecOn with
  | nil =>
    rw [List.append_nil, List.length_nil, pow_zero, mul_one]
    rfl
  | append_singleton ds c ih =>
    have hc := toNat_of_isDigit (h c (by simp))
    have hstep := Nat.toDigits_append_toDigits (b := 10)
      (n := n * 10 ^ ds.length + digitsValue ds) (d := c.toNat - 48) (by decide)
      (Nat.add_pos_left (Nat.mul_pos hn (Nat.pow_pos (by decide))) _) (by omega)
    rw [Nat.toDigits_of_lt_base (n := c.toNat - 48) (by omega),
      digitChar_of_isDigit (h c (by simp))] at hstep
    rw [← List.append_assoc, ih fun d hd => h d (List.mem_append_left _ hd), hstep,
      digitsValue_concat, List.length_append, List.length_singleton, pow_succ]
    congr 1
    ring

/-- A run of digits is the number that it writes down, with zeros in front of it. -/
theorem exists_replicate_toDigits (h : AllDigits ds) (hne : ds ≠ []) :
    ∃ k, ds = List.replicate k '0' ++ Nat.toDigits 10 (digitsValue ds) := by
  induction ds with
  | nil => exact absurd rfl hne
  | cons c cs ih =>
    have hcs : AllDigits cs := fun d hd => h d (List.mem_cons_of_mem c hd)
    have hc := toNat_of_isDigit (h c List.mem_cons_self)
    have hvalue : digitsValue (c :: cs) = (c.toNat - 48) * 10 ^ cs.length + digitsValue cs := by
      have happend := digitsValue_append [c] cs
      have hone := digitsValue_concat [] c
      rw [List.nil_append] at hone
      rw [List.singleton_append, hone] at happend
      rw [happend]
      show (0 * 10 + (c.toNat - 48)) * _ + _ = _
      rw [Nat.zero_mul, Nat.zero_add]
    by_cases hzero : c.toNat = 48
    · -- A zero in front counts for nothing, unless there is no other digit.
      have hchar : c = '0' := Char.toNat_inj.mp hzero
      rw [hzero, Nat.sub_self, Nat.zero_mul, Nat.zero_add] at hvalue
      rcases eq_or_ne cs [] with rfl | hrest
      · exact ⟨0, by rw [hchar]; rfl⟩
      · obtain ⟨k, hk⟩ := ih hcs hrest
        refine ⟨k + 1, ?_⟩
        rw [hvalue, List.replicate_succ, List.cons_append, ← hk, hchar]
    · refine ⟨0, ?_⟩
      have hdigits := toDigits_append (n := c.toNat - 48) (by omega) hcs
      rw [Nat.toDigits_of_lt_base (by omega), digitChar_of_isDigit (h c List.mem_cons_self),
        ← hvalue] at hdigits
      exact hdigits

/-- The first digits of a run are its number divided by a power of ten. -/
theorem digitsValue_take (h : AllDigits ds) {k : Nat} (hk : k ≤ ds.length) :
    digitsValue (ds.take (ds.length - k)) = digitsValue ds / 10 ^ k := by
  have hdrop : (ds.drop (ds.length - k)).length = k := by
    rw [List.length_drop]
    omega
  have hlt : digitsValue (ds.drop (ds.length - k)) < 10 ^ k := by
    have hdigits : AllDigits (ds.drop (ds.length - k)) := fun d hd => h d (List.mem_of_mem_drop hd)
    have hbehind := digitsValue_lt hdigits
    rwa [hdrop] at hbehind
  have hsplit := digitsValue_append (ds.take (ds.length - k)) (ds.drop (ds.length - k))
  rw [List.take_append_drop, hdrop] at hsplit
  rw [hsplit, Nat.mul_comm, Nat.mul_add_div (Nat.pow_pos (by decide)), Nat.div_eq_of_lt hlt,
    Nat.add_zero]

/-! ## The carry -/

theorem allDigits_carry (h : AllDigits cs) : AllDigits (carry cs) := by
  fun_induction carry cs with
  | case1 => exact List.all_eq_true.mp (by decide)
  | case2 cs ih =>
    intro d hd
    rcases List.mem_cons.mp hd with rfl | hd
    · rfl
    · exact ih (fun d hd => h d (List.mem_cons_of_mem _ hd)) d hd
  | case3 c cs hc =>
    intro d hd
    rcases List.mem_cons.mp hd with rfl | hd
    · have hdigit := toNat_of_isDigit (h c List.mem_cons_self)
      have hnine : c.toNat ≠ 57 := fun hnine => hc (Char.toNat_inj.mp hnine)
      have hall : ∀ n, 48 ≤ n → n ≤ 57 → isDigit (Char.ofNat n) = true := by decide
      exact hall _ (by omega) (by omega)
    · exact h d (List.mem_cons_of_mem c hd)

/-- The carry adds one to the number, last digit first. -/
theorem digitsValue_carry (h : AllDigits cs) :
    digitsValue (carry cs).reverse = digitsValue cs.reverse + 1 := by
  fun_induction carry cs with
  | case1 => rfl
  | case2 cs ih =>
    have hrest := ih fun d hd => h d (List.mem_cons_of_mem _ hd)
    rw [List.reverse_cons, List.reverse_cons, digitsValue_concat, digitsValue_concat, hrest]
    show (_ + 1) * 10 + 0 = _ * 10 + 9 + 1
    omega
  | case3 c cs hc =>
    have hdigit := toNat_of_isDigit (h c List.mem_cons_self)
    have hnine : c.toNat ≠ 57 := fun hnine => hc (Char.toNat_inj.mp hnine)
    have hnext : ∀ n, 48 ≤ n → n ≤ 57 → (Char.ofNat n).toNat = n := by decide
    rw [List.reverse_cons, List.reverse_cons, digitsValue_concat, digitsValue_concat,
      hnext _ (by omega) (by omega)]
    omega

/-- Only nines become longer, and then the number is a power of ten. -/
theorem length_carry (h : AllDigits cs) : (carry cs).length = cs.length ∨
    ((carry cs).length = cs.length + 1 ∧ digitsValue cs.reverse + 1 = 10 ^ cs.length) := by
  fun_induction carry cs with
  | case1 => exact .inr ⟨rfl, rfl⟩
  | case2 cs ih =>
    rw [List.length_cons, List.length_cons, List.reverse_cons, digitsValue_concat]
    rcases ih fun d hd => h d (List.mem_cons_of_mem _ hd) with hsame | ⟨hlonger, hnines⟩
    · exact .inl (by rw [hsame])
    · refine .inr ⟨by rw [hlonger], ?_⟩
      show _ * 10 + 9 + 1 = _
      rw [pow_succ, ← hnines]
      omega
  | case3 c cs hc => exact .inl rfl

theorem allDigits_increment (h : AllDigits ds) : AllDigits (increment ds) :=
  (allDigits_carry h.reverse).reverse

theorem digitsValue_increment (h : AllDigits ds) :
    digitsValue (increment ds) = digitsValue ds + 1 := by
  have hcarry := digitsValue_carry h.reverse
  rwa [List.reverse_reverse] at hcarry

theorem length_increment (h : AllDigits ds) : (increment ds).length = ds.length ∨
    ((increment ds).length = ds.length + 1 ∧ digitsValue ds + 1 = 10 ^ ds.length) := by
  have hcarry := length_carry h.reverse
  rw [List.reverse_reverse, List.length_reverse] at hcarry
  rwa [increment, List.length_reverse]

/-! ## Digits around a point -/

/-- The digits of a number with places: one at least in front of the point, and the first one is
    no zero if there are more of them. -/
structure Padded (places : Nat) (ds : List Char) : Prop where
  digits : AllDigits ds
  length : places < ds.length
  first : places + 1 < ds.length → 10 ^ (ds.length - 1) ≤ digitsValue ds

theorem toDigits_length_eq {n k : Nat} (hlo : 10 ^ k ≤ n) (hhi : n < 10 ^ (k + 1)) :
    (Nat.toDigits 10 n).length = k + 1 := by
  have hlt := lt_length_toDigits hlo
  have hle := (Nat.length_toDigits_le_iff (b := 10) (by decide) (Nat.succ_pos k)).mpr hhi
  omega

/-- Such digits are known by their number. -/
theorem Padded.withPoint_eq {places : Nat} (h : Padded places ds) :
    withPoint places ds = withPlaces (digitsValue ds) places := by
  have hne : ds ≠ [] := List.ne_nil_of_length_pos ((Nat.zero_le _).trans_lt h.length)
  obtain ⟨k, hk⟩ := exists_replicate_toDigits h.digits hne
  have hlength : ds.length = k + (Nat.toDigits 10 (digitsValue ds)).length := by
    conv_lhs => rw [hk]
    rw [List.length_append, List.length_replicate]
  have hzeros : k = places + 1 - (Nat.toDigits 10 (digitsValue ds)).length := by
    rcases Nat.lt_or_ge (places + 1) ds.length with hlt | hge
    · -- No zero stands in front, and there are digits enough.
      have hfirst := h.first hlt
      have hlast := digitsValue_lt h.digits
      have hsucc : ds.length = ds.length - 1 + 1 := by omega
      rw [hsucc] at hlast
      have hfull := toDigits_length_eq hfirst hlast
      omega
    · have hpadded := h.length
      omega
  show _ = withPoint places (List.replicate (places + 1 - _) '0' ++ _)
  rw [← hzeros, ← hk]

/-- What is written with places are such digits of the number. -/
theorem exists_padded (n places : Nat) :
    ∃ ds, Padded places ds ∧ digitsValue ds = n ∧ withPlaces n places = withPoint places ds := by
  refine ⟨List.replicate (places + 1 - (Nat.toDigits 10 n).length) '0' ++ Nat.toDigits 10 n,
    ⟨?_, ?_, ?_⟩, ?_, rfl⟩
  · exact (allDigits_zeros _).append (allDigits_toDigits n)
  · rw [List.length_append, List.length_replicate]
    omega
  · intro hlong
    rw [List.length_append, List.length_replicate] at hlong
    have hzeros : places + 1 - (Nat.toDigits 10 n).length = 0 := by omega
    have hn : 0 < n := by
      rcases Nat.eq_zero_or_pos n with rfl | hn
      · rw [Nat.toDigits_zero, List.length_singleton] at hlong
        omega
      · exact hn
    rw [hzeros, List.replicate_zero, List.nil_append, digitsValue_toDigits]
    exact pow_length_toDigits_le hn
  · rw [digitsValue_zeros_append, digitsValue_toDigits]

variable {places : Nat}

/-- Adding one keeps the places. -/
theorem Padded.increment (h : Padded places ds) : Padded places (increment ds) := by
  have hvalue := digitsValue_increment h.digits
  have hlength := length_increment h.digits
  have hpadded := h.length
  refine ⟨allDigits_increment h.digits, by omega, fun hlong => ?_⟩
  rw [hvalue]
  rcases hlength with hsame | ⟨hlonger, hpower⟩
  · rw [hsame]
    exact (h.first (hsame ▸ hlong)).trans (Nat.le_succ _)
  · rw [hlonger, Nat.add_sub_cancel]
    exact hpower.ge

/-- Cutting digits off leaves so many places less. -/
theorem Padded.take (h : Padded (places + k) ds) :
    Padded places (ds.take (ds.length - k)) := by
  have hpadded := h.length
  have hlength : (ds.take (ds.length - k)).length = ds.length - k := by
    rw [List.length_take]
    omega
  refine ⟨fun d hd => h.digits d (List.mem_of_mem_take hd), by omega, fun hlong => ?_⟩
  rw [hlength] at hlong ⊢
  rw [digitsValue_take h.digits (by omega)]
  have hfirst := h.first (by omega)
  have hpow : ds.length - 1 = ds.length - k - 1 + k := by omega
  rw [hpow, pow_add] at hfirst
  exact (Nat.le_div_iff_mul_le (Nat.pow_pos (by decide))).mpr hfirst

/-! ## Rounding -/

/-- The magnitude `u` in multiples of 10^-places, to the nearest, a half upwards. -/
def roundedPlaces (u places : Nat) : Nat :=
  (2 * u * Nat.pow 10 places + Nat.pow 2 unitBits) / (2 * Nat.pow 2 unitBits)

/-- The two parts of digits around a point. -/
theorem parts_withPoint (h : Padded places ds) (hplaces : places ≠ 0) :
    (withPoint places ds).takeWhile (· ≠ '.') = ds.take (ds.length - places) ∧
      ((withPoint places ds).dropWhile (· ≠ '.')).drop 1 = ds.drop (ds.length - places) := by
  have hwhole : ∀ d ∈ ds.take (ds.length - places), decide (d ≠ '.') = true := by
    intro d hd
    refine decide_eq_true fun hpoint => ?_
    have hdigit := h.digits d (List.mem_of_mem_take hd)
    rw [hpoint] at hdigit
    exact absurd hdigit (by decide)
  have hstop : Stops (fun d => decide (d ≠ '.')) ('.' :: ds.drop (ds.length - places)) := by
    rintro d ⟨⟩
    rfl
  rw [withPoint, if_neg hplaces]
  constructor
  · exact takeWhile_append_of_forall hwhole hstop
  · rw [dropWhile_append_of_forall hwhole hstop]
    rfl

/-- Halves are rounded up: a number of tenths to the nearest whole number. -/
theorem div_ten_add_round (q : Nat) : (q + 5) / 10 = if 5 ≤ q % 10 then q / 10 + 1 else q / 10 := by
  split <;> omega

/-- The number of tenths is what decides, however many digits follow. -/
theorem roundedPlaces_eq (u : Nat) {k : Nat} (h : places + (k + 1) = unitBits) :
    roundedPlaces u places = (u * 5 ^ unitBits / 10 ^ k + 5) / 10 := by
  have hten : 10 ^ places * 10 ^ (k + 1) = 2 ^ unitBits * 5 ^ unitBits := by
    rw [← pow_add, h, ← mul_pow, show 2 * 5 = 10 from rfl]
  have hpos : 0 < 5 ^ unitBits * 10 ^ places :=
    Nat.mul_pos (Nat.pow_pos (by decide)) (Nat.pow_pos (by decide))
  rw [roundedPlaces, Nat.pow_eq, Nat.pow_eq]
  generalize 5 ^ unitBits = fives at hten hpos ⊢
  generalize 2 ^ unitBits = one at hten ⊢
  have hnum : (2 * u * 10 ^ places + one) * fives = (2 * (u * fives) + 10 ^ (k + 1)) * 10 ^ places := by
    calc (2 * u * 10 ^ places + one) * fives = 2 * u * 10 ^ places * fives + one * fives := by ring
      _ = 2 * u * 10 ^ places * fives + 10 ^ places * 10 ^ (k + 1) := by rw [hten]
      _ = (2 * (u * fives) + 10 ^ (k + 1)) * 10 ^ places := by ring
  have hden : 2 * one * fives = 2 * 10 ^ (k + 1) * 10 ^ places := by
    calc 2 * one * fives = 2 * (one * fives) := Nat.mul_assoc 2 one fives
      _ = 2 * (10 ^ places * 10 ^ (k + 1)) := by rw [hten]
      _ = 2 * 10 ^ (k + 1) * 10 ^ places := by ring
  have hfives : 0 < fives := pos_of_mul_pos_left hpos (Nat.zero_le _)
  rw [← Nat.mul_div_mul_right _ _ hfives, hnum, hden,
    Nat.mul_div_mul_right _ _ (Nat.pow_pos (by decide)), pow_succ]
  generalize u * fives = n
  have hk : 0 < 10 ^ k := Nat.pow_pos (by decide)
  have hsum : 2 * n + 10 ^ k * 10 = 2 * (n + 5 * 10 ^ k) := by ring
  rw [hsum, Nat.mul_div_mul_left _ _ (by decide), ← Nat.div_div_eq_div_mul,
    Nat.add_mul_div_right _ _ hk]

/-- **Rounding.** The digits that are kept, rounded by the digit behind them, are those of the
    magnitude rounded to the nearest multiple of 10^-places. -/
theorem padded_roundedDigits (u : Nat) (h : places < unitBits) :
    Padded places (roundedDigits u places) ∧
      digitsValue (roundedDigits u places) = roundedPlaces u places := by
  obtain ⟨k, hk⟩ : ∃ k, places + (k + 1) = unitBits := ⟨unitBits - places - 1, by omega⟩
  obtain ⟨ds, hpadded, hvalue, hwith⟩ := exists_padded (u * Nat.pow 5 unitBits) unitBits
  have hlength := hpadded.length
  obtain ⟨hwhole, hbehind⟩ := parts_withPoint hpadded (by decide)
  have hkept : ds.take (ds.length - unitBits) ++ (ds.drop (ds.length - unitBits)).take places =
      ds.take (ds.length - (k + 1)) := by
    have hcut : ds.length - (k + 1) = (ds.length - unitBits) + places := by omega
    rw [hcut, List.take_add]
  have hindex : ds.length - unitBits + places = ds.length - (k + 1) := by omega
  have hlt : ds.length - (k + 1) < ds.length := by omega
  have hshort : k ≤ ds.length := by omega
  -- The tenths are the digits that are kept and the one behind them.
  have htenths : digitsValue (ds.take (ds.length - k)) =
      digitsValue (ds.take (ds.length - (k + 1))) * 10 + (ds[ds.length - (k + 1)].toNat - 48) := by
    have hsucc : ds.length - k = ds.length - (k + 1) + 1 := by omega
    rw [hsucc, ← List.take_concat_get' ds _ hlt, digitsValue_concat]
  have hdigit := toNat_of_isDigit (hpadded.digits _ (List.getElem_mem hlt))
  have hfive : '5' ≤ ds[ds.length - (k + 1)] ↔ 5 ≤ digitsValue (ds.take (ds.length - k)) % 10 := by
    show 53 ≤ ds[ds.length - (k + 1)].toNat ↔ _
    omega
  have hround := roundedPlaces_eq u hk
  rw [div_ten_add_round, ← Nat.pow_eq, ← hvalue, ← digitsValue_take hpadded.digits hshort]
    at hround
  have htake : Padded places (ds.take (ds.length - (k + 1))) := (hk ▸ hpadded).take
  rw [roundedDigits]
  simp only [allPlaces, hwith, hwhole, hbehind, hkept, List.getElem?_drop, hindex,
    List.getElem?_eq_getElem hlt, Option.any_some, decide_eq_true_eq]
  split
  · next hup =>
    rw [if_pos (hfive.mp hup)] at hround
    refine ⟨htake.increment, ?_⟩
    rw [digitsValue_increment htake.digits, hround]
    omega
  · next hdown =>
    rw [if_neg fun hup => hdown (hfive.mpr hup)] at hround
    refine ⟨htake, ?_⟩
    rw [hround]
    omega

theorem withPoint_roundedDigits (u : Nat) (h : places < unitBits) :
    withPoint places (roundedDigits u places) = withPlaces (roundedPlaces u places) places := by
  obtain ⟨hpadded, hvalue⟩ := padded_roundedDigits u h
  rw [hpadded.withPoint_eq, hvalue]

end Decimal

end Formulary
