/-
  Formulary.Binary64

  The numbers of double precision (IEEE 754 binary64), as exact quantities.

  Every finite one is a whole number of units of 2^-1074, the least positive number. A
  magnitude of `u` units can be represented if it is below 2^1024, which is 2^2098
  units, and has at most 53 significant bits (`Representable`).

  `roundUnits num den` is the magnitude nearest to the fraction `num / den` of units; of
  two equally near ones it is the one with the even significand. Every operation that
  has to round computes its exact result as a fraction and rounds it once.
-/

namespace Formulary

namespace Binary64

/-- The units in the number one, as a power of two. -/
def unitBits : Nat := 1074

/-- The units in 2^1024, below which every finite number stays. -/
def bound : Nat := Nat.pow 2 (1024 + unitBits)

end Binary64

/-- Whether a number of units is the magnitude of a binary64 number. -/
def Representable (u : Nat) : Prop := u < Binary64.bound ∧ Nat.pow 2 (u.log2 - 52) ∣ u

instance (u : Nat) : Decidable (Representable u) :=
  inferInstanceAs (Decidable (_ ∧ _))

/-- A number of double precision. -/
inductive Binary64 where
  | nan
  | infinite (negative : Bool)
  | finite (negative : Bool) (units : Nat) (representable : Representable units)
  deriving DecidableEq

namespace Binary64

/-- The quotient of two numbers, to the nearest whole number; a half goes to the even
neighbour. -/
def divToEven (num den : Nat) : Nat :=
  let q := num / den
  let twice := 2 * (num % den)
  if den < twice || (den == twice && q % 2 == 1) then q + 1 else q

/-- The power of two whose multiples are the magnitudes near `num / den` units. -/
def gridBits (num den : Nat) : Nat := (num / den).log2 - 52

/-- The magnitude nearest to `num / den` units, the range of exponents left aside. -/
def roundUnits (num den : Nat) : Nat :=
  let bits := gridBits num den
  divToEven num (den * Nat.pow 2 bits) * Nat.pow 2 bits

/-! ## The result of rounding is a magnitude -/

/-- The quotient is taken up where more than a half is left, or a half above an odd number. -/
theorem divToEven_eq (num den : Nat) :
    divToEven num den =
      if den < 2 * (num % den) ∨ den = 2 * (num % den) ∧ num / den % 2 = 1 then num / den + 1
      else num / den := by
  simp [divToEven]

theorem divToEven_le (num den : Nat) : divToEven num den ≤ num / den + 1 := by
  rw [divToEven_eq]; split <;> omega

theorem le_divToEven (num den : Nat) : num / den ≤ divToEven num den := by
  rw [divToEven_eq]; split <;> omega

/-- On the grid of its own size a fraction has at most 53 significant bits. -/
theorem divToEven_le_two_pow (num den : Nat) :
    divToEven num (den * Nat.pow 2 (gridBits num den)) ≤ Nat.pow 2 53 := by
  simp only [Nat.pow_eq]
  refine Nat.le_trans (divToEven_le _ _) ?_
  rw [← Nat.div_div_eq_div_mul]
  generalize h : num / den = q
  have hlog : q < 2 ^ (q.log2 + 1) := Nat.lt_log2_self
  have : q / 2 ^ gridBits num den < 2 ^ 53 := by
    rw [Nat.div_lt_iff_lt_mul (Nat.two_pow_pos _), ← Nat.pow_add]
    refine Nat.lt_of_lt_of_le hlog (Nat.pow_le_pow_right (by decide) ?_)
    simp only [gridBits, h]; omega
  omega

/-- A significand of at most 53 bits times a power of two has few enough bits. -/
theorem two_pow_log2_dvd {m : Nat} (hm : m ≤ Nat.pow 2 53) (s : Nat) :
    Nat.pow 2 ((m * Nat.pow 2 s).log2 - 52) ∣ m * Nat.pow 2 s := by
  simp only [Nat.pow_eq] at hm ⊢
  by_cases h0 : m = 0
  · simp [h0]
  · by_cases h53 : m = 2 ^ 53
    · subst h53
      rw [← Nat.pow_add, Nat.log2_two_pow]
      exact Nat.pow_dvd_pow 2 (by omega)
    · have hlt : m * 2 ^ s < 2 ^ (53 + s) := by
        rw [Nat.pow_add]
        exact Nat.mul_lt_mul_of_pos_right (by omega) (Nat.two_pow_pos s)
      have hne : m * 2 ^ s ≠ 0 := Nat.mul_ne_zero h0 (Nat.pos_iff_ne_zero.1 (Nat.two_pow_pos s))
      have hlog : (m * 2 ^ s).log2 < 53 + s := (Nat.log2_lt hne).2 hlt
      exact Nat.dvd_trans (Nat.pow_dvd_pow 2 (by omega)) (Nat.dvd_mul_left _ _)

theorem roundUnits_dvd (num den : Nat) :
    Nat.pow 2 ((roundUnits num den).log2 - 52) ∣ roundUnits num den :=
  two_pow_log2_dvd (divToEven_le_two_pow num den) _

/-! ## A magnitude is its own rounding -/

theorem divToEven_of_dvd {num den : Nat} (h : den ∣ num) (hden : 0 < den) :
    divToEven num den = num / den := by
  rw [divToEven_eq, Nat.mod_eq_zero_of_dvd h, if_neg (by omega)]

/-- A fraction that is a representable number of units is left as it is. -/
theorem roundUnits_mul {u den : Nat} (hu : Nat.pow 2 (u.log2 - 52) ∣ u) (hden : 0 < den) :
    roundUnits (u * den) den = u := by
  have hbits : gridBits (u * den) den = u.log2 - 52 := by
    rw [gridBits, Nat.mul_div_cancel _ hden]
  have hdvd : den * Nat.pow 2 (u.log2 - 52) ∣ u * den := by
    rw [Nat.mul_comm u den]
    exact Nat.mul_dvd_mul_left den hu
  simp only [roundUnits, hbits]
  rw [divToEven_of_dvd hdvd (Nat.mul_pos hden (Nat.two_pow_pos _)), Nat.mul_comm u den,
    Nat.mul_div_mul_left _ _ hden, Nat.div_mul_cancel hu]

/-! ## Making numbers -/

/-- The number with the magnitude nearest to `num / den` units; infinite where that is
2^1024 or more. -/
def ofRatio (negative : Bool) (num den : Nat) : Binary64 :=
  if h : roundUnits num den < bound then
    .finite negative (roundUnits num den) ⟨h, roundUnits_dvd num den⟩
  else .infinite negative

/-- The number nearest to a whole number of units. -/
def ofUnits (negative : Bool) (u : Nat) : Binary64 := ofRatio negative u 1

theorem ofRatio_mul {u : Nat} (negative : Bool) (hu : Representable u) {den : Nat}
    (hden : 0 < den) : ofRatio negative (u * den) den = .finite negative u hu := by
  simp only [ofRatio, roundUnits_mul hu.2 hden, hu.1, ↓reduceDIte]

/-- A representable number of units is a number as it stands. -/
theorem ofUnits_eq {u : Nat} (negative : Bool) (hu : Representable u) :
    ofUnits negative u = .finite negative u hu := by
  have h := ofRatio_mul negative hu Nat.one_pos
  rwa [Nat.mul_one] at h

/-- The number nearest to a natural number. -/
def ofNat (n : Nat) : Binary64 := ofUnits false (n * Nat.pow 2 unitBits)

/-- Positive zero. -/
def zero : Binary64 := ofNat 0

/-- Positive zero or, for a negative sign, negative zero. -/
def signedZero (negative : Bool) : Binary64 := ofUnits negative 0

/-- The distance from one to the next larger number, 2^-52. -/
def epsilon : Binary64 := ofUnits false (Nat.pow 2 1022)

/-! ## Parts -/

/-- Whether a value is not a number. -/
def isNaN : Binary64 → Bool
  | nan => true
  | _ => false

/-- Whether a number is zero, of either sign. -/
def isZero : Binary64 → Bool
  | finite _ u _ => u == 0
  | _ => false

/-- Whether a number has a minus sign. -/
def isNegative : Binary64 → Bool
  | nan => false
  | infinite s | finite s _ _ => s

/-- The signed number of units of a finite number. -/
def units? : Binary64 → Option Int
  | finite s u _ => some (if s then -u else u)
  | _ => none

/-- The number with the opposite sign. -/
def neg : Binary64 → Binary64
  | nan => nan
  | infinite s => infinite !s
  | finite s u h => finite (!s) u h

/-- The number without its sign. -/
def abs : Binary64 → Binary64
  | nan => nan
  | infinite _ => infinite false
  | finite _ u h => finite false u h

end Binary64

end Formulary
