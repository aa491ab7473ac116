/-
  Formulary.Decimal.Shortest

  Numbers written with the fewest digits that read back.

  For `n = 1, 2, …, 17` the two neighbours of the number among the decimals with `n`
  significant digits are read back; the first `n` with a hit wins, of two hits the nearer
  one, and of two equally near ones the greater. Magnitudes from 1e-6 up to 1e21 are
  written in plain notation, all others with an exponent (`1e+21`, `1.5e-7`). Both zeros
  are written `0`.
-/

import Formulary.Decimal.Reading

namespace Formulary

namespace Decimal

/-! ## The digits -/

/-- The number of decimal digits in front of the point of a positive magnitude; zero or
less if it is below one tenth. -/
def leadingPlace (u : Nat) : Int :=
  let whole := u / Nat.pow 2 Binary64.unitBits
  if 0 < whole then (Nat.toDigits 10 whole).length
  else 1 - ((Nat.toDigits 10 ((Nat.pow 2 Binary64.unitBits - 1) / u)).length : Int)

/-- A magnitude as a fraction of `10^exponent`. -/
def scaled (u : Nat) (exponent : Int) : Nat × Nat :=
  if 0 ≤ exponent then (u, Nat.pow 2 Binary64.unitBits * Nat.pow 10 exponent.toNat)
  else (u * Nat.pow 10 (-exponent).toNat, Nat.pow 2 Binary64.unitBits)

/-- Whether `digits · 10^exponent` is read as the magnitude `u`. -/
def readsBack (u : Nat) (exponent : Int) (digits : Nat) : Bool :=
  (nearest false digits exponent).units? == some (u : Int)

/-- The multiple of `10^exponent` next to a magnitude that reads back, the nearer one if
both neighbours do. -/
def neighbour? (u : Nat) (exponent : Int) : Option Nat :=
  let (num, den) := scaled u exponent
  let below := num / den
  let above := if num % den = 0 then below else below + 1
  match readsBack u exponent below, readsBack u exponent above with
  | false, false => none
  | true, false => some below
  | false, true => some above
  | true, true => some (if 2 * (num % den) < den then below else above)

/-- A whole number without the zeros at its end, and how many there were. -/
def dropZeros (n : Nat) : Nat × Nat :=
  if _h : n % 10 = 0 ∧ n ≠ 0 then
    let (m, k) := dropZeros (n / 10)
    (m, k + 1)
  else (n, 0)
termination_by n
decreasing_by omega

/-- The decimal `digits · 10^exponent` without zeros at its end. -/
def normalized (digits : Nat) (exponent : Int) : Nat × Int :=
  let (m, k) := dropZeros digits
  (m, exponent + k)

/-- The shortest decimal that reads back as a positive magnitude. Should none of up to 17
digits do, the magnitude itself in all its digits. -/
def shortest (u : Nat) : Nat × Int :=
  let place := leadingPlace u
  let found := (List.range 17).findSome? fun i =>
    let exponent := place - (i + 1 : Nat)
    (neighbour? u exponent).map fun digits => normalized digits exponent
  found.getD (normalized (u * Nat.pow 5 Binary64.unitBits) (-(Binary64.unitBits : Int)))

/-! ## The notation -/

/-- Digits with a point behind the first `place` of them, zeros filled in. -/
def plain (ds : List Char) (place : Int) : List Char :=
  if place ≤ 0 then ['0', '.'] ++ List.replicate (-place).toNat '0' ++ ds
  else if (ds.length : Int) ≤ place then ds ++ List.replicate (place - ds.length).toNat '0'
  else ds.take place.toNat ++ '.' :: ds.drop place.toNat

/-- Digits with a point behind the first of them and an exponent. -/
def scientific (ds : List Char) (place : Int) : List Char :=
  let exponent := place - 1
  let fraction := if ds.length ≤ 1 then [] else '.' :: ds.drop 1
  ds.take 1 ++ fraction ++ ['e', if 0 ≤ exponent then '+' else '-'] ++
    Nat.toDigits 10 exponent.natAbs

/-- A positive decimal in the notation that its size asks for. -/
def layout (digits : Nat) (exponent : Int) : List Char :=
  let ds := Nat.toDigits 10 digits
  let place := ds.length + exponent
  if -6 < place ∧ place ≤ 21 then plain ds place else scientific ds place

/-- A number as text, in the fewest digits that read back. -/
def print : Binary64 → String
  | .nan => "NaN"
  | .infinite negative => if negative then "-Infinity" else "Infinity"
  | .finite negative u _ =>
    if u = 0 then "0"
    else
      let (digits, exponent) := shortest u
      String.ofList ((if negative then ['-'] else []) ++ layout digits exponent)

end Decimal

end Formulary
