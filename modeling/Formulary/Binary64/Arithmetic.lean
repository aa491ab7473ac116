/-
  Formulary.Binary64.Arithmetic

  Sums, products, quotients, comparisons and whole parts of binary64 numbers.

  Each operation on finite numbers is the exact result, rounded once. Zero has a sign:
  an exact sum of zero is positive unless both terms are negative, and a product or
  quotient is negative if exactly one operand is.
-/

import Formulary.Binary64

namespace Formulary

namespace Binary64

/-! ## Sums -/

/-- The number nearest to a signed number of units; `negative` is the sign of a zero. -/
def ofInt (negative : Bool) (n : Int) : Binary64 :=
  if n = 0 then signedZero negative else ofUnits (n < 0) n.natAbs

/-- The sum of two numbers. -/
def add : Binary64 → Binary64 → Binary64
  | nan, _ | _, nan => nan
  | infinite s, infinite t => if s = t then infinite s else nan
  | infinite s, finite _ _ _ | finite _ _ _, infinite s => infinite s
  | finite s u _, finite t v _ =>
    ofInt (s && t) ((if s then -(u : Int) else u) + (if t then -(v : Int) else v))

/-- The difference of two numbers. -/
def sub (x y : Binary64) : Binary64 := add x y.neg

/-! ## Products and quotients -/

/-- The product of two numbers. -/
def mul : Binary64 → Binary64 → Binary64
  | nan, _ | _, nan => nan
  | infinite s, infinite t => infinite (s != t)
  | infinite s, finite t u _ | finite t u _, infinite s => if u = 0 then nan else infinite (s != t)
  | finite s u _, finite t v _ => ofRatio (s != t) (u * v) (Nat.pow 2 unitBits)

/-- The quotient of two numbers. -/
def div : Binary64 → Binary64 → Binary64
  | nan, _ | _, nan => nan
  | infinite _, infinite _ => nan
  | infinite s, finite t _ _ => infinite (s != t)
  | finite s _ _, infinite t => signedZero (s != t)
  | finite s u _, finite t v _ =>
    if v ≠ 0 then ofRatio (s != t) (u * Nat.pow 2 unitBits) v
    else if u = 0 then nan else infinite (s != t)

/-! ## Order -/

/-- The place of a number in the order: the infinities lie on either side of all units.
`nan` has none, and both zeros have the same. -/
def place? : Binary64 → Option (Int × Int)
  | nan => none
  | infinite s => some (if s then -1 else 1, 0)
  | finite s u _ => some (0, if s then -u else u)

/-- The order of two numbers; `nan` compares with nothing. -/
def compare? (x y : Binary64) : Option Ordering :=
  match x.place?, y.place? with
  | some (a, m), some (b, n) => some ((compare a b).then (compare m n))
  | _, _ => none

/-- The greater of two numbers, neither of them `nan`. -/
def max (x y : Binary64) : Binary64 := if x.compare? y = some .lt then y else x

/-- The lesser of two numbers, neither of them `nan`. -/
def min (x y : Binary64) : Binary64 := if x.compare? y = some .gt then y else x

/-! ## Whole parts -/

/-- The magnitude `u` without its fraction, or the next whole one if `up` holds and there
is a fraction. -/
def wholeUnits (up : Bool) (u : Nat) : Nat :=
  let one := Nat.pow 2 unitBits
  (if up && u % one != 0 then u / one + 1 else u / one) * one

/-- The greatest whole number not above a number. -/
def floor : Binary64 → Binary64
  | finite s u _ => ofUnits s (wholeUnits s u)
  | x => x

/-- The least whole number not below a number. -/
def ceil : Binary64 → Binary64
  | finite s u _ => ofUnits s (wholeUnits (!s) u)
  | x => x

/-- The whole part of a number as an integer between `-limit` and `limit`, `0` for `nan`. -/
def toIntWithin (limit : Nat) : Binary64 → Int
  | nan => 0
  | infinite s => if s then -limit else limit
  | finite s u _ =>
    let n : Int := Min.min (u / Nat.pow 2 unitBits) limit
    if s then -n else n

end Binary64

end Formulary
