/-
  Formulary.Proofs.FewestDigits

  No decimal with fewer digits reads back.

  `shortest` tries one digit, two digits and so on, and each time only the two multiples of a
  power of ten next to the magnitude. The numbers that are read as one magnitude have no gaps,
  so if any decimal with that many digits reads back, then one of these two does, and it is not
  farther away (`exists_neighbour?_of_digits`). With seventeen digits the nearer one always
  reads back (`exists_neighbour?_seventeen`). So the search ends, with the fewest digits and
  with the nearest decimal that has so many (`isShortest_shortest`).
-/

import Formulary.Proofs.FixedPlaces
import Formulary.Proofs.NearestNumbers
import Formulary.Proofs.ShortestDigits

namespace Formulary

namespace Decimal

open Binary64 (nearestUnits unitBits)

variable {u : Nat}

/-! ## The leading place -/

/-- A magnitude has its first digit in its leading place. -/
theorem leadingPlace_spec (hu : u ≠ 0) : (10 : ℚ) ^ (leadingPlace u - 1) * 2 ^ unitBits ≤ u ∧
    (u : ℚ) < 10 ^ leadingPlace u * 2 ^ unitBits := by
  have hunit : 0 < 2 ^ unitBits := Nat.two_pow_pos _
  have hcast : (2 : ℚ) ^ unitBits = (2 ^ unitBits : Nat) := by push_cast; rfl
  simp only [leadingPlace, Nat.pow_eq, hcast]
  generalize 2 ^ unitBits = one at hunit
  split
  · next hwhole =>
    -- The digits in front of the point are counted.
    obtain ⟨k, hlength, hlow, hhigh⟩ := exists_length_toDigits hwhole
    have hfirst : ((k + 1 : ℕ) : ℤ) - 1 = k := by omega
    rw [hlength, hfirst, zpow_natCast, zpow_natCast]
    constructor
    · exact_mod_cast (Nat.le_div_iff_mul_le hunit).mp hlow
    · exact_mod_cast (Nat.div_lt_iff_lt_mul hunit).mp hhigh
  · next hwhole =>
    -- The zeros behind the point are those of the quotient of the unit.
    have hpos : 0 < u := Nat.pos_of_ne_zero hu
    have hsmall : u < one :=
      Nat.lt_of_div_eq_zero hunit (Nat.eq_zero_of_not_pos hwhole)
    obtain ⟨k, hlength, hlow, hhigh⟩ :=
      exists_length_toDigits (Nat.div_pos (Nat.le_sub_one_of_lt hsmall) hpos)
    rw [Nat.le_div_iff_mul_le hpos] at hlow
    rw [Nat.div_lt_iff_lt_mul hpos] at hhigh
    have hfirst : (1 : ℤ) - (k + 1 : ℕ) - 1 = -((k + 1 : ℕ) : ℤ) := by omega
    have hsecond : (1 : ℤ) - (k + 1 : ℕ) = -(k : ℤ) := by omega
    have hten (n : ℕ) : (0 : ℚ) < 10 ^ n := by positivity
    rw [hlength, hfirst, hsecond, zpow_neg, zpow_neg, zpow_natCast, zpow_natCast]
    constructor
    · rw [inv_mul_le_iff₀ (hten _)]
      exact_mod_cast (by omega : one ≤ 10 ^ (k + 1) * u)
    · rw [lt_inv_mul_iff₀ (hten _)]
      exact_mod_cast (by omega : 10 ^ k * u < one)

/-! ## The neighbours of a magnitude -/

variable {m : Nat} {e : Int}

theorem unitsOf_eq_mul (m : Nat) (e : Int) : unitsOf m e = m * unitsOf 1 e := by
  rw [unitsOf, unitsOf, Nat.cast_one, one_mul, mul_assoc]

/-- Powers of ten as multiples of smaller ones. -/
theorem unitsOf_ten_pow (k : Nat) (e : Int) : unitsOf (10 ^ k) e = 10 ^ (e + k) * 2 ^ unitBits := by
  rw [← Nat.one_mul (10 ^ k), unitsOf_mul_pow, unitsOf, Nat.cast_one, one_mul]

theorem unitsOf_one_pos (e : Int) : 0 < unitsOf 1 e := by
  rw [unitsOf]
  positivity

theorem unitsOf_le_iff {n : Nat} : unitsOf m e ≤ unitsOf n e ↔ m ≤ n := by
  rw [unitsOf_eq_mul m, unitsOf_eq_mul n, mul_le_mul_iff_of_pos_right (unitsOf_one_pos e)]
  exact Nat.cast_le

theorem scaled_spec (u : Nat) (e : Int) :
    0 < (scaled u e).2 ∧ ((scaled u e).1 : ℚ) * unitsOf 1 e = u * (scaled u e).2 := by
  rw [scaled, unitsOf]
  split
  · next h =>
    obtain ⟨k, rfl⟩ := Int.eq_ofNat_of_zero_le h
    simp only [Nat.pow_eq, Int.toNat_natCast, zpow_natCast]
    refine ⟨Nat.mul_pos (Nat.two_pow_pos _) (Nat.pow_pos (by decide)), ?_⟩
    push_cast
    ring
  · next h =>
    obtain ⟨k, hk⟩ := Int.eq_ofNat_of_zero_le (by omega : 0 ≤ -e)
    obtain rfl : e = -k := by omega
    simp only [Nat.pow_eq, neg_neg, Int.toNat_natCast, zpow_neg, zpow_natCast]
    refine ⟨Nat.two_pow_pos _, ?_⟩
    push_cast
    field_simp

/-- The greatest multiple of `10^e` that is not above a magnitude. -/
def below (u : Nat) (e : Int) : Nat := (scaled u e).1 / (scaled u e).2

/-- The least multiple of `10^e` that is not below a magnitude. -/
def above (u : Nat) (e : Int) : Nat :=
  if (scaled u e).1 % (scaled u e).2 = 0 then below u e else below u e + 1

theorem neighbour?_eq (u : Nat) (e : Int) :
    neighbour? u e =
      match readsBack u e (below u e), readsBack u e (above u e) with
      | false, false => none
      | true, false => some (below u e)
      | false, true => some (above u e)
      | true, true =>
        some (if 2 * ((scaled u e).1 % (scaled u e).2) < (scaled u e).2 then below u e
          else above u e) := rfl

theorem above_le (u : Nat) (e : Int) : above u e ≤ below u e + 1 := by
  rw [above]
  split <;> omega

/-- No multiple lies between the two. -/
theorem le_below_or_above_le (u : Nat) (e : Int) (m : Nat) : m ≤ below u e ∨ above u e ≤ m := by
  have hle := above_le u e
  omega

/-- The part of a step from the lower multiple up to the magnitude. -/
def leftover (u : Nat) (e : Int) : ℚ := ((scaled u e).1 % (scaled u e).2 : ℕ) / (scaled u e).2

theorem eq_below_add (u : Nat) (e : Int) :
    (u : ℚ) = unitsOf (below u e) e + leftover u e * unitsOf 1 e := by
  obtain ⟨hden, hvalue⟩ := scaled_spec u e
  have hdenq : ((scaled u e).2 : ℚ) ≠ 0 := Nat.cast_ne_zero.mpr hden.ne'
  have hnum : ((scaled u e).1 : ℚ) =
      (scaled u e).2 * (below u e : ℕ) + ((scaled u e).1 % (scaled u e).2 : ℕ) := by
    exact_mod_cast (Nat.div_add_mod _ _).symm
  rw [unitsOf_eq_mul, eq_comm, ← mul_left_inj' hdenq, ← hvalue, hnum, leftover]
  field_simp

theorem leftover_nonneg (u : Nat) (e : Int) : 0 ≤ leftover u e := by
  rw [leftover]
  positivity

theorem leftover_lt_one (u : Nat) (e : Int) : leftover u e < 1 := by
  obtain ⟨hden, -⟩ := scaled_spec u e
  rw [leftover, div_lt_one (Nat.cast_pos.mpr hden), Nat.cast_lt]
  exact Nat.mod_lt _ hden

/-- The upper multiple is the lower one if nothing is left over, and else the next one. -/
theorem unitsOf_above (u : Nat) (e : Int) :
    leftover u e = 0 ∧ unitsOf (above u e) e = unitsOf (below u e) e ∨
      unitsOf (above u e) e = unitsOf (below u e) e + unitsOf 1 e := by
  rw [above]
  split
  · next hexact =>
    left
    rw [leftover, hexact, Nat.cast_zero, zero_div]
    exact ⟨rfl, rfl⟩
  · right
    rw [unitsOf_eq_mul, unitsOf_eq_mul (below u e), Nat.cast_add, Nat.cast_one, add_mul, one_mul]

theorem below_le (u : Nat) (e : Int) : unitsOf (below u e) e ≤ u := by
  have hsplit := eq_below_add u e
  have hpart := mul_nonneg (leftover_nonneg u e) (unitsOf_one_pos e).le
  linarith

theorem le_above (u : Nat) (e : Int) : u ≤ unitsOf (above u e) e := by
  have hsplit := eq_below_add u e
  rcases unitsOf_above u e with ⟨hexact, hsame⟩ | hnext
  · rw [hexact, zero_mul, add_zero] at hsplit
    rw [hsame]
    exact hsplit.le
  · have hpart := mul_le_mul_of_nonneg_right (leftover_lt_one u e).le (unitsOf_one_pos e).le
    linarith

/-- Less than half of a step is left over where the lower multiple is the nearer one. -/
theorem below_nearer (h : 2 * ((scaled u e).1 % (scaled u e).2) < (scaled u e).2) :
    u - unitsOf (below u e) e ≤ unitsOf (above u e) e - u := by
  obtain ⟨hden, -⟩ := scaled_spec u e
  have hhalf : leftover u e ≤ 1 / 2 := by
    have hq : 2 * (((scaled u e).1 % (scaled u e).2 : ℕ) : ℚ) < (scaled u e).2 := by exact_mod_cast h
    rw [leftover, div_le_iff₀ (Nat.cast_pos.mpr hden)]
    linarith
  have hsplit := eq_below_add u e
  have hpart := mul_le_mul_of_nonneg_right hhalf (unitsOf_one_pos e).le
  rcases unitsOf_above u e with ⟨hexact, hsame⟩ | hnext
  · rw [hexact, zero_mul, add_zero] at hsplit
    rw [hsame, ← hsplit]
  · linarith

/-- Half of a step or more is left over where the upper one is. -/
theorem above_nearer (h : (scaled u e).2 ≤ 2 * ((scaled u e).1 % (scaled u e).2)) :
    unitsOf (above u e) e - u ≤ u - unitsOf (below u e) e := by
  obtain ⟨hden, -⟩ := scaled_spec u e
  have hhalf : 1 / 2 ≤ leftover u e := by
    have hq : ((scaled u e).2 : ℚ) ≤ 2 * (((scaled u e).1 % (scaled u e).2 : ℕ) : ℚ) := by
      exact_mod_cast h
    rw [leftover, le_div_iff₀ (Nat.cast_pos.mpr hden)]
    linarith
  have hsplit := eq_below_add u e
  have hpart := mul_le_mul_of_nonneg_right hhalf (unitsOf_one_pos e).le
  rcases unitsOf_above u e with ⟨hexact, -⟩ | hnext
  · rw [hexact] at hhalf
    norm_num at hhalf
  · linarith

/-! ## What reads back -/

theorem readsBack_iff (hu : Representable u) :
    readsBack u e m = true ↔ nearestUnits (unitsOf m e) = u := by
  refine ⟨nearestUnits_of_readsBack, fun h => ?_⟩
  have hlt : nearestUnits (unitsOf m e) < Binary64.bound := h.symm ▸ hu.1
  rw [readsBack, nearest_eq_ofRat, Binary64.ofRat_of_lt false hlt, beq_iff_eq]
  show some (nearestUnits (unitsOf m e) : Int) = _
  rw [h]

/-- What lies between a decimal that reads back and the magnitude reads back. -/
theorem reads_of_between (hu : Representable u) (h : nearestUnits (unitsOf m e) = u) {q : ℚ}
    (hq : unitsOf m e ≤ q ∧ q ≤ u ∨ u ≤ q ∧ q ≤ unitsOf m e) : nearestUnits q = u := by
  have hself := Binary64.nearestUnits_natCast hu.2
  rcases hq with ⟨hle, hle'⟩ | ⟨hle, hle'⟩
  · exact Binary64.nearestUnits_of_between (unitsOf_nonneg m e) hle hle' h hself
  · exact Binary64.nearestUnits_of_between u.cast_nonneg hle hle' hself h

/-- The neighbour on the side of a multiple that reads back does so too, and is not farther away:
    it lies between the multiple and the magnitude. -/
theorem below_or_above_reads (hu : Representable u) (h : nearestUnits (unitsOf m e) = u) :
    (readsBack u e (below u e) = true ∧ |unitsOf (below u e) e - u| ≤ |unitsOf m e - u|) ∨
      (readsBack u e (above u e) = true ∧ |unitsOf (above u e) e - u| ≤ |unitsOf m e - u|) := by
  have hbelow := below_le u e
  have habove := le_above u e
  rcases le_below_or_above_le u e m with hm | hm
  · have hunits := (unitsOf_le_iff (e := e)).mpr hm
    refine .inl ⟨(readsBack_iff hu).mpr (reads_of_between hu h (.inl ⟨hunits, hbelow⟩)), ?_⟩
    rw [abs_of_nonpos (by linarith), abs_of_nonpos (by linarith)]
    linarith
  · have hunits := (unitsOf_le_iff (e := e)).mpr hm
    refine .inr ⟨(readsBack_iff hu).mpr (reads_of_between hu h (.inr ⟨habove, hunits⟩)), ?_⟩
    rw [abs_of_nonneg (by linarith), abs_of_nonneg (by linarith)]
    linarith

/-- **Neighbours.** If any multiple of a power of ten reads back, then one is found that is not
    farther away. -/
theorem exists_neighbour? (hu : Representable u) (h : nearestUnits (unitsOf m e) = u) :
    ∃ d, neighbour? u e = some d ∧ |unitsOf d e - u| ≤ |unitsOf m e - u| := by
  have hside := below_or_above_reads hu h
  rw [neighbour?_eq]
  cases hbelow : readsBack u e (below u e) <;> cases habove : readsBack u e (above u e)
  · rw [hbelow, habove] at hside
    rcases hside with ⟨hfalse, -⟩ | ⟨hfalse, -⟩ <;> exact absurd hfalse Bool.false_ne_true
  · rw [hbelow] at hside
    exact ⟨above u e, rfl, (hside.resolve_left fun hs => Bool.false_ne_true hs.1).2⟩
  · rw [habove] at hside
    exact ⟨below u e, rfl, (hside.resolve_right fun hs => Bool.false_ne_true hs.1).2⟩
  · -- Both read back, and the nearer one is taken.
    have hbelowAbs : |unitsOf (below u e) e - u| = u - unitsOf (below u e) e := by
      rw [abs_sub_comm, abs_of_nonneg (sub_nonneg.mpr (below_le u e))]
    have haboveAbs : |unitsOf (above u e) e - u| = unitsOf (above u e) e - u :=
      abs_of_nonneg (sub_nonneg.mpr (le_above u e))
    rw [hbelowAbs, haboveAbs] at hside
    by_cases hhalf : 2 * ((scaled u e).1 % (scaled u e).2) < (scaled u e).2
    · have hnear := below_nearer hhalf
      refine ⟨below u e, by rw [if_pos hhalf], ?_⟩
      rw [hbelowAbs]
      rcases hside with ⟨-, hs⟩ | ⟨-, hs⟩ <;> linarith
    · have hnear := above_nearer (Nat.not_lt.mp hhalf)
      refine ⟨above u e, by rw [if_neg hhalf], ?_⟩
      rw [haboveAbs]
      rcases hside with ⟨-, hs⟩ | ⟨-, hs⟩ <;> linarith

/-! ## Digits -/

/-- The number of digits of a number. -/
def digitCount (n : Nat) : Nat := (Nat.toDigits 10 n).length

theorem digitCount_pos (n : Nat) : 0 < digitCount n := Nat.length_toDigits_pos

theorem digitCount_le {n k : Nat} (hk : 0 < k) (h : n < 10 ^ k) : digitCount n ≤ k :=
  (Nat.length_toDigits_le_iff (by decide) hk).mpr h

/-- If any decimal with `k` digits reads back, then the search finds one with that many, and it is
    not farther away. -/
theorem exists_neighbour?_of_digits (hu : Representable u) (hne : u ≠ 0)
    (h : nearestUnits (unitsOf m e) = u) :
    ∃ d, neighbour? u (leadingPlace u - digitCount m) = some d ∧
      |unitsOf d (leadingPlace u - digitCount m) - u| ≤ |unitsOf m e - u| := by
  set k := digitCount m with hk
  have hkpos : 0 < k := digitCount_pos m
  rcases lt_or_ge e (leadingPlace u - k) with hfine | hcoarse
  · -- The decimal is below the leading power of ten, which reads back then.
    have hlead := (leadingPlace_spec hne).1
    have hpower : unitsOf (10 ^ (k - 1)) (leadingPlace u - k) =
        10 ^ (leadingPlace u - 1) * 2 ^ unitBits := by
      have hexp : leadingPlace u - k + (k - 1 : ℕ) = leadingPlace u - 1 := by omega
      rw [unitsOf_ten_pow, hexp]
    have hsmall : unitsOf m e ≤ 10 ^ (leadingPlace u - 1) * 2 ^ unitBits := by
      have hlt : unitsOf m e < 10 ^ ((k : ℤ) + e) * 2 ^ unitBits := unitsOf_lt m e
      have hexp : (10 : ℚ) ^ ((k : ℤ) + e) ≤ 10 ^ (leadingPlace u - 1) :=
        zpow_le_zpow_right₀ (by norm_num) (by omega)
      exact hlt.le.trans (mul_le_mul_of_nonneg_right hexp (by positivity))
    rw [← hpower] at hlead hsmall
    obtain ⟨d, hd, hnear⟩ := exists_neighbour? hu (reads_of_between hu h (.inl ⟨hsmall, hlead⟩))
    refine ⟨d, hd, hnear.trans ?_⟩
    rw [abs_of_nonpos (by linarith), abs_of_nonpos (by linarith)]
    linarith
  · -- It is a multiple of the power of ten itself.
    obtain ⟨j, hj⟩ := Int.eq_ofNat_of_zero_le (sub_nonneg.mpr hcoarse)
    have hexp : leadingPlace u - k + (j : ℕ) = e := by omega
    have hmultiple := unitsOf_mul_pow m (leadingPlace u - k) j
    rw [hexp] at hmultiple
    rw [← hmultiple] at h ⊢
    exact exists_neighbour? hu h

/-- With seventeen digits the nearer neighbour reads back. -/
theorem exists_neighbour?_seventeen (hu : Representable u) (hne : u ≠ 0) :
    ∃ d, neighbour? u (leadingPlace u - 17) = some d := by
  have hupos : (0 : ℚ) < u := Nat.cast_pos.mpr (Nat.pos_of_ne_zero hne)
  -- A step of the last digit is at most 10^-16 of the magnitude.
  have hstep : unitsOf 1 (leadingPlace u - 17) * 10 ^ 16 ≤ u := by
    have hlead := (leadingPlace_spec hne).1
    have hexp : leadingPlace u - 17 + (16 : ℕ) = leadingPlace u - 1 := by omega
    have hpower := unitsOf_ten_pow 16 (leadingPlace u - 17)
    rw [unitsOf_eq_mul, hexp] at hpower
    push_cast at hpower
    linarith
  set e := leadingPlace u - 17
  have hbelow := below_le u e
  have habove := le_above u e
  have hwidth : unitsOf (above u e) e - unitsOf (below u e) e ≤ unitsOf 1 e := by
    have hone := unitsOf_one_pos e
    rcases unitsOf_above u e with ⟨-, hsame⟩ | hnext <;> linarith
  -- Half of it is less than 2^-54 of the magnitude.
  have hclose {d : Nat} (h : |(u : ℚ) - unitsOf d e| ≤ unitsOf 1 e / 2) :
      nearestUnits (unitsOf d e) = u := by
    refine Binary64.nearestUnits_of_close hu.2 (unitsOf_nonneg _ _) ?_
    linarith
  rcases le_total ((u : ℚ) - unitsOf (below u e) e) (unitsOf (above u e) e - u) with hnear | hnear
  · have hreads := hclose (d := below u e) (by rw [abs_of_nonneg (by linarith)]; linarith)
    exact (exists_neighbour? hu hreads).imp fun d hd => hd.1
  · have hreads := hclose (d := above u e) (by rw [abs_of_nonpos (by linarith)]; linarith)
    exact (exists_neighbour? hu hreads).imp fun d hd => hd.1

/-! ## The search -/

/-- The search stops at the first number of digits with a neighbour that reads back. -/
theorem exists_first_neighbour (hu : Representable u) (hne : u ≠ 0) :
    ∃ i d, neighbour? u (leadingPlace u - (i + 1 : ℕ)) = some d ∧
      shortest u = normalized d (leadingPlace u - (i + 1 : ℕ)) ∧
      ∀ j < i, neighbour? u (leadingPlace u - (j + 1 : ℕ)) = none := by
  rcases hfound : (List.range 17).findSome? (fun i =>
      (neighbour? u (leadingPlace u - (i + 1 : ℕ))).map fun d =>
        normalized d (leadingPlace u - (i + 1 : ℕ))) with _ | result
  · obtain ⟨d, hd⟩ := exists_neighbour?_seventeen hu hne
    have hlast := List.findSome?_eq_none_iff.mp hfound 16 (by decide)
    rw [Option.map_eq_none_iff] at hlast
    exact absurd (hlast.symm.trans hd) (by simp)
  · obtain ⟨front, i, back, hrange, hi, hfront⟩ := List.findSome?_eq_some_iff.mp hfound
    obtain ⟨d, hd, hresult⟩ := Option.map_eq_some_iff.mp hi
    refine ⟨i, d, hd, ?_, fun j hj => ?_⟩
    · simp only [shortest, hfound, Option.getD_some]
      exact hresult.symm
    · -- What stands in front of `i` are the numbers below it.
      have hget : (List.range 17)[front.length]? = some i := by
        rw [hrange, List.getElem?_append_right le_rfl, Nat.sub_self, List.getElem?_cons_zero]
      obtain ⟨hlt, hi'⟩ := List.getElem?_eq_some_iff.mp hget
      rw [List.getElem_range] at hi'
      have hget' : (List.range 17)[j]? = some j := List.getElem?_range (by simp at hlt; omega)
      rw [hrange, List.getElem?_append_left (by omega)] at hget'
      exact Option.map_eq_none_iff.mp (hfront j (List.mem_of_getElem? hget'))

theorem neighbour?_le {d : Nat} (h : neighbour? u e = some d) : d ≤ below u e + 1 := by
  have habove := above_le u e
  rw [neighbour?_eq] at h
  split at h
  · exact nomatch h
  · exact (Option.some.inj h) ▸ Nat.le_succ _
  · exact (Option.some.inj h) ▸ habove
  · rw [← Option.some.inj h]
    split
    · exact Nat.le_succ _
    · exact habove

/-- What is found has no more digits than were asked for, without the zeros at its end. -/
theorem digitCount_normalized_le (hne : u ≠ 0) {k d : Nat} (hk : 0 < k)
    (h : neighbour? u (leadingPlace u - k) = some d) :
    digitCount (normalized d (leadingPlace u - k)).1 ≤ k := by
  -- The neighbour may be the power of ten with one digit more, but then it ends in zeros.
  have hbelow : below u (leadingPlace u - k) < 10 ^ k := by
    by_contra hle
    have hunits := (unitsOf_le_iff (e := leadingPlace u - k)).mpr (Nat.not_lt.mp hle)
    have hpower := unitsOf_ten_pow k (leadingPlace u - k)
    rw [sub_add_cancel] at hpower
    have hlead := (leadingPlace_spec hne).2
    have hbelow := below_le u (leadingPlace u - k)
    linarith
  have hd : d ≤ 10 ^ k := (neighbour?_le h).trans hbelow
  show digitCount (dropZeros d).1 ≤ k
  have hmul := dropZeros_mul d
  have hpos : 0 < 10 ^ (dropZeros d).2 := Nat.pow_pos (by decide)
  have hle : (dropZeros d).1 ≤ d := (Nat.le_mul_of_pos_right _ hpos).trans_eq hmul
  refine digitCount_le hk (lt_of_le_of_ne (hle.trans hd) fun hpower => ?_)
  have hten : 10 ∣ (dropZeros d).1 := hpower ▸ dvd_pow_self 10 hk.ne'
  have hdne : d ≠ 0 := by
    rintro rfl
    rw [Nat.le_zero.mp hle] at hpower
    exact absurd hpower (Nat.pow_pos (by decide)).ne
  exact dropZeros_mod_ne_zero hdne (Nat.mod_eq_zero_of_dvd hten)

/-- A decimal that reads back as the magnitude `u`, none with fewer digits does, and none with as
    many is nearer to it. -/
structure IsShortest (u : Nat) (digits : Nat) (exponent : Int) : Prop where
  reads : nearestUnits (unitsOf digits exponent) = u
  fewest : ∀ m e, nearestUnits (unitsOf m e) = u → digitCount digits ≤ digitCount m
  closest : ∀ m e, nearestUnits (unitsOf m e) = u → digitCount m = digitCount digits →
    |unitsOf digits exponent - u| ≤ |unitsOf m e - u|

/-- **Fewest digits.** What is found for a magnitude is the shortest decimal for it. -/
theorem isShortest_shortest (hu : Representable u) (hne : u ≠ 0) :
    IsShortest u (shortest u).1 (shortest u).2 := by
  obtain ⟨i, d, hd, heq, hfirst⟩ := exists_first_neighbour hu hne
  have hcount := digitCount_normalized_le hne (Nat.succ_pos i) hd
  -- Fewer digits would have been found before.
  have hleast {m : Nat} {e : Int} (h : nearestUnits (unitsOf m e) = u) : i + 1 ≤ digitCount m := by
    by_contra hlt
    obtain ⟨d', hd', -⟩ := exists_neighbour?_of_digits hu hne h
    have hpos := digitCount_pos m
    have hnone := hfirst (digitCount m - 1) (by omega)
    rw [Nat.sub_add_cancel hpos] at hnone
    exact absurd (hnone.symm.trans hd') (by simp)
  refine ⟨(shortens_shortest hu).reads, fun m e h => ?_, fun m e h hsame => ?_⟩
  · rw [heq]
    exact hcount.trans (hleast h)
  · rw [heq] at hsame ⊢
    have hexact : digitCount m = i + 1 := le_antisymm (hsame.trans_le hcount) (hleast h)
    obtain ⟨d', hd', hnear⟩ := exists_neighbour?_of_digits hu hne h
    rw [hexact] at hd' hnear
    obtain rfl : d' = d := Option.some.inj (hd'.symm.trans hd)
    rw [unitsOf_normalized]
    exact hnear

end Decimal

end Formulary
