/-
  Formulary.Decimal.Reading

  Texts read as numbers. Blanks around the numeral do not count and a text of blanks
  alone is zero. A numeral is one of

    * decimal: a sign, digits with a point among them or at either end, and an exponent;
    * `Infinity` with or without a sign;
    * hexadecimal, octal or binary: `0x`, `0o` or `0b` and digits, without a sign.

  Any other text is `nan`. A decimal numeral denotes a fraction, which is rounded once
  (`nearest`). A numeral of another radix is rounded once if it is below 2^64, and after
  every digit if it is wider.
-/

import Formulary.Text.Ascii
import Formulary.Text.Blank
import Formulary.Binary64.Arithmetic

namespace Formulary

namespace Decimal

open Text (isDigit)

/-- The number that a run of decimal digits denotes. -/
def digitsValue (ds : List Char) : Nat := Nat.ofDigitChars 10 ds 0

/-- A decimal numeral: a sign, a whole number, and the power of ten it is multiplied by. -/
structure Numeral where
  negative : Bool
  digits : Nat
  exponent : Int
  deriving DecidableEq, Repr

/-- The binary64 number nearest to `digits · 10^exponent`. Beyond 10^400 every numeral but
zero is infinite, and far below 2^-1075 every one is zero. -/
def nearest (negative : Bool) (digits : Nat) (exponent : Int) : Binary64 :=
  if digits = 0 then .signedZero negative
  else if 400 ≤ exponent then .infinite negative
  else if exponent + 400 + digits.log2 < 0 then .signedZero negative
  else if 0 ≤ exponent then
    .ofUnits negative (digits * Nat.pow 10 exponent.toNat * Nat.pow 2 Binary64.unitBits)
  else .ofRatio negative (digits * Nat.pow 2 Binary64.unitBits) (Nat.pow 10 (-exponent).toNat)

/-! ## Decimal numerals -/

/-- A sign, if there is one, and what follows it. -/
def takeSign : List Char → Bool × List Char
  | '-' :: cs => (true, cs)
  | '+' :: cs => (false, cs)
  | cs => (false, cs)

/-- The exponent that the rest of a numeral states: none, or `e` and a signed number. -/
def exponent? : List Char → Option Int
  | [] => some 0
  | c :: cs =>
    let (negative, ds) := takeSign cs
    if (c = 'e' || c = 'E') && !ds.isEmpty && ds.all isDigit then
      some (if negative then -(digitsValue ds : Int) else digitsValue ds)
    else none

/-- The digits behind the point, if there is one, and what follows them. -/
def takePlaces : List Char → List Char × List Char
  | '.' :: cs => (cs.takeWhile isDigit, cs.dropWhile isDigit)
  | cs => ([], cs)

/-- The decimal numeral that a text is. -/
def numeral? (cs : List Char) : Option Numeral :=
  let (negative, rest) := takeSign cs
  let whole := rest.takeWhile isDigit
  let (places, rest) := takePlaces (rest.dropWhile isDigit)
  if whole.isEmpty && places.isEmpty then none
  else (exponent? rest).map fun e =>
    ⟨negative, digitsValue (whole ++ places), e - places.length⟩

/-! ## Other radixes -/

/-- The radix that the character behind a leading zero stands for. -/
def radix? : Char → Option Nat
  | 'x' | 'X' => some 16
  | 'o' | 'O' => some 8
  | 'b' | 'B' => some 2
  | _ => none

/-- The value of a digit, `none` for a character that is no digit of the radix. -/
def digit? (radix : Nat) (c : Char) : Option Nat := (Text.hexValue? c).filter (· < radix)

/-- The number with the given digits, the first the most significant. -/
def radixValue (radix : Nat) (ds : List Nat) : Nat := ds.foldl (fun n d => n * radix + d) 0

/-- The digits of a numeral of another radix as a number: rounded once below 2^64, and
else after every step of `n ↦ n · radix + digit`. -/
def readDigits (radix : Nat) (ds : List Nat) : Binary64 :=
  let n := radixValue radix ds
  if n < Nat.pow 2 64 then .ofNat n
  else ds.foldl (fun x d => (x.mul (.ofNat radix)).add (.ofNat d)) .zero

/-- The radix and the digits of a text that starts like a numeral of another radix. -/
def radixParts? : List Char → Option (Nat × List Char)
  | '0' :: c :: d :: cs => (radix? c).map fun radix => (radix, d :: cs)
  | _ => none

/-! ## Texts -/

/-- A text without blanks around it as a number. -/
def readTrimmed (cs : List Char) : Binary64 :=
  if cs = [] then .zero
  else if cs = "Infinity".toList || cs = "+Infinity".toList then .infinite false
  else if cs = "-Infinity".toList then .infinite true
  else
    match radixParts? cs with
    | some (radix, ds) =>
      match ds.mapM (digit? radix) with
      | some values => readDigits radix values
      | none => .nan
    | none =>
      match numeral? cs with
      | some n => nearest n.negative n.digits n.exponent
      | none => .nan

/-- The number that a text is read as, `nan` if it is not numeric. -/
def read (s : String) : Binary64 := readTrimmed (Text.trim s.toList)

end Decimal

end Formulary
