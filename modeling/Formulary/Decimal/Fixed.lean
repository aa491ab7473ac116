/-
  Formulary.Decimal.Fixed

  Numbers written with a fixed number of decimal places.

  `printFixed` takes a number in all its digits (`allPlaces`), cuts them behind the places
  asked for and, if the first digit behind the cut is a five or more, adds one to the last
  digit that is kept; the one is carried over nines (`increment`). Below 0 and above 100
  places it takes 0 and 100; numbers of 10^21 or more are written as `print` writes them. A
  minus stays in front of a number that rounds to zero: `-0.00`.

  `normalize` writes a number with ten places, reads that and prints it: the noise of
  binary arithmetic disappears, and `0.1 + 0.2` is `0.3`.
-/

import Formulary.Decimal.Shortest

namespace Formulary

namespace Decimal

/-- Digits with a point before the last `places` of them; without places there is no point. -/
def withPoint (places : Nat) (ds : List Char) : List Char :=
  let whole := ds.take (ds.length - places)
  if places = 0 then whole else whole ++ '.' :: ds.drop (ds.length - places)

/-- A number of multiples of 10^-places, with at least one digit in front of the point. -/
def withPlaces (n places : Nat) : List Char :=
  let ds := Nat.toDigits 10 n
  withPoint places (List.replicate (places + 1 - ds.length) '0' ++ ds)

/-- A magnitude in all its digits. The unit is 2^-1074, so 1074 places are enough. -/
def allPlaces (u : Nat) : List Char :=
  withPlaces (u * Nat.pow 5 Binary64.unitBits) Binary64.unitBits

/-- One more than a number whose digits are given last digit first. -/
def carry : List Char → List Char
  | [] => ['1']
  | c :: cs => if c = '9' then '0' :: carry cs else Char.ofNat (c.toNat + 1) :: cs

/-- The digits of one more than a number. -/
def increment (ds : List Char) : List Char := (carry ds.reverse).reverse

/-- The digits of a magnitude up to the last of the places, the digit behind it rounded. -/
def roundedDigits (u places : Nat) : List Char :=
  let all := allPlaces u
  let behind := (all.dropWhile (· ≠ '.')).drop 1
  let kept := all.takeWhile (· ≠ '.') ++ behind.take places
  if behind[places]?.any ('5' ≤ ·) then increment kept else kept

/-- The least magnitude that is not written with fixed places, 10^21. -/
def fixedLimit : Nat := Nat.pow 10 21 * Nat.pow 2 Binary64.unitBits

/-- A number with a fixed number of decimal places. -/
def printFixed (x : Binary64) (places : Int) : String :=
  let places := min places.toNat 100
  match x with
  | .finite negative u _ =>
    if u < fixedLimit then
      String.ofList
        ((if negative && u ≠ 0 then ['-'] else []) ++ withPoint places (roundedDigits u places))
    else print x
  | _ => print x

/-- A number as the result of arithmetic: at most ten decimal places. -/
def normalize (x : Binary64) : String := print (read (printFixed x 10))

/-- A text without the longest run of `c` at its end. -/
def dropEnd (c : Char) (cs : List Char) : List Char := (cs.reverse.dropWhile (· == c)).reverse

/-- A numeral with a point, without the zeros at its end and then without a point there. -/
def dropPlaces (s : String) : String :=
  if '.' ∈ s.toList then String.ofList (dropEnd '.' (dropEnd '0' s.toList)) else s

end Decimal

end Formulary
