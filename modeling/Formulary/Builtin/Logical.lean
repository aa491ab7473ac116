/-
  Formulary.Builtin.Logical

  Comparisons and the conditional. Two numeric texts compare as numbers, two others by
  their UTF-16 units, and a numeric one with another not at all. A comparison answers `1`
  or `0`; the condition of `choose` fails on `0` and on the empty text only.
-/

import Formulary.Text.Order
import Formulary.Decimal.Reading

namespace Formulary

namespace Builtin

/-- The order of two texts, if they can be compared. -/
def compareTexts? (a b : String) : Option Ordering :=
  let x := Decimal.read a
  let y := Decimal.read b
  match x.isNaN, y.isNaN with
  | false, false => x.compare? y
  | true, true => some (Text.compareUnits a b)
  | _, _ => none

/-- Whether the first two arguments are in an order that `accept` admits, as `1` or `0`. -/
def comparison (accept : Ordering → Bool) (args : List String) : String :=
  match args with
  | a :: b :: _ => if (compareTexts? a b).any accept then "1" else "0"
  | _ => "0"

/-- Whether the first argument is less than the second. -/
def lt : List String → String := comparison Ordering.isLT

/-- Whether the first argument is less than the second or equal to it. -/
def lte : List String → String := comparison Ordering.isLE

/-- Whether the first two arguments are equal. -/
def eq : List String → String := comparison Ordering.isEq

/-- Whether the first argument is greater than the second or equal to it. -/
def gte : List String → String := comparison Ordering.isGE

/-- Whether the first argument is greater than the second. -/
def gt : List String → String := comparison Ordering.isGT

/-- The second argument if the first one holds, else the third; nothing where that is
missing or there are fewer than two. -/
def choose (args : List String) : String :=
  match args with
  | condition :: yes :: rest =>
    if condition = "" || condition = "0" then rest.head?.getD "" else yes
  | _ => ""

end Builtin

end Formulary
