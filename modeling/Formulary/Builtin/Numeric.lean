/-
  Formulary.Builtin.Numeric

  Arithmetic and rounding. Arguments are read as numbers (`Decimal.read`); an argument
  that is no number makes the result `NaN`.

  Sums, differences, products, quotients and powers come back with at most ten decimal
  places (`Decimal.normalize`), after every step of a longer sum or product. The extremes
  come back as they are. Rounding functions take the number of places and a flag that
  keeps the zeros at the end.
-/

import Formulary.Text.Case
import Formulary.Binary64.Power
import Formulary.Decimal.Fixed

namespace Formulary

namespace Builtin

open Decimal (read print printFixed normalize dropPlaces)

/-- The result of arithmetic on something that is no number. -/
def notANumber : String := "NaN"

/-! ## Parameters -/

/-- A number of decimal places; zero if it is missing or no number. -/
def places (arg : Option String) : Binary64 :=
  match arg with
  | some s => if (read s).isNaN then .zero else read s
  | none => .zero

/-- Whether a flag is set: not if it is missing, empty, `0`, `false` or `no`. -/
def flag (arg : Option String) : Bool := Text.lower (arg.getD "") ∉ ["", "0", "false", "no"]

/-! ## Rounding -/

/-- A number with the places that `args[1]` asks for; the flag `args[2]` keeps the zeros at
the end. -/
def rounded (x : Binary64) (args : List String) : String :=
  let text := printFixed x ((places args[1]?).toIntWithin (Nat.pow 2 63))
  if flag args[2]? then text else dropPlaces text

/-- The first argument to the nearest multiple of 10^-places, a half away from zero. The
distance from one to the next number is added first, so that `1.555` counts as a half. -/
def round (args : List String) : String :=
  match args with
  | [] => notANumber
  | s :: _ => rounded (Binary64.epsilon.add (read s)) args

/-- The first argument, scaled by 10^places, put through `whole` and scaled back. -/
def scaledBy (whole : Binary64 → Binary64) (args : List String) : String :=
  match args with
  | [] => notANumber
  | s :: _ =>
    let scale := (Binary64.ofNat 10).power (places args[1]?)
    rounded ((whole ((read s).mul scale)).div scale) args

/-- The least multiple of 10^-places not below the first argument. -/
def ceil : List String → String := scaledBy Binary64.ceil

/-- The greatest multiple of 10^-places not above the first argument. -/
def floor : List String → String := scaledBy Binary64.floor

/-! ## Arithmetic -/

/-- An operation on two texts that are read as numbers. -/
def onNumbers (op : Binary64 → Binary64 → String) (a b : String) : String :=
  if (read a).isNaN || (read b).isNaN then notANumber else op (read a) (read b)

/-- The sum of the arguments. -/
def add (args : List String) : String :=
  args.foldl (onNumbers fun x y => normalize (x.add y)) "0"

/-- The product of the arguments. -/
def multiply (args : List String) : String :=
  args.foldl (onNumbers fun x y => normalize (x.mul y)) "1"

/-- The first argument less the sum of the others. -/
def subtract (args : List String) : String :=
  match args with
  | [] => notANumber
  | s :: rest => onNumbers (fun x y => normalize (x.sub y)) s (add rest)

/-- The first argument divided by the product of the others; a divisor of zero gives no
number. -/
def divide (args : List String) : String :=
  match args with
  | [] => notANumber
  | s :: rest =>
    onNumbers (fun x y => if y.isZero then notANumber else normalize (x.div y)) s (multiply rest)

/-- The first argument to the power of the second; a missing one counts as zero. -/
def pow (args : List String) : String :=
  onNumbers (fun x y => normalize (x.power y)) (args[0]?.getD "0") (args[1]?.getD "0")

/-! ## Extremes -/

/-- The argument that `pick` prefers among all, printed in its shortest form. -/
def extreme (pick : Binary64 → Binary64 → Binary64) (args : List String) : String :=
  match args with
  | [] => notANumber
  | s :: _ => args.foldl (onNumbers fun x y => print (pick x y)) s

/-- The greatest argument. -/
def max : List String → String := extreme Binary64.max

/-- The least argument. -/
def min : List String → String := extreme Binary64.min

end Builtin

end Formulary
