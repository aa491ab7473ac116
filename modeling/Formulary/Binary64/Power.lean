/-
  Formulary.Binary64.Power

  Powers. A whole power that is itself a binary64 number is computed exactly (`whole?`);
  this covers the powers of ten up to 10^22, which are the scales of rounding. Every
  other power is as near as the machine's power function brings it.

  The edge cases are those of formulas: a power to `nan`, and a power of one or minus
  one to an infinity, is `nan`; anything else to the power zero is one.
-/

import Formulary.Binary64.Arithmetic
import Formulary.Binary64.Bits

namespace Formulary

namespace Binary64

/-- The odd part of a number and the power of two that goes with it. -/
def oddPart (n : Nat) : Nat × Nat :=
  if _h : n % 2 = 0 ∧ n ≠ 0 then
    let (m, k) := oddPart (n / 2)
    (m, k + 1)
  else (n, 0)
termination_by n
decreasing_by omega

/-- The whole number that a number is, if it is one. -/
def toInt? : Binary64 → Option Int
  | finite s u _ =>
    if u % Nat.pow 2 unitBits = 0 then
      some (if s then -((u / Nat.pow 2 unitBits : Nat) : Int) else (u / Nat.pow 2 unitBits : Nat))
    else none
  | _ => none

/-- The power `base ^ n` of a number that is not zero, if it can be represented. With
`base = ± m · 2^k` units for an odd `m` it is `± m^n · 2^(k n)`, where `k` counts from the
unit; a negative `n` needs `m = 1`. -/
def whole? (base : Binary64) (n : Int) : Option Binary64 :=
  match base with
  | finite s u _ =>
    let (m, twos) := oddPart u
    let exponent : Int := ((twos : Int) - unitBits) * n + unitBits
    if u = 0 then none
    else if m = 1 || (0 ≤ n && n.toNat * m.log2 < 53) then
      let significand := if m = 1 then 1 else Nat.pow m n.toNat
      if 0 ≤ exponent && exponent + significand.log2 < 1024 + unitBits && significand < Nat.pow 2 53 then
        some (ofUnits (s && n % 2 != 0) (significand * Nat.pow 2 exponent.toNat))
      else none
    else none
  | _ => none

/-- The power as the machine computes it. -/
def machinePower (base exponent : Binary64) : Binary64 :=
  ofBits (Float.pow (.ofBits base.toBits) (.ofBits exponent.toBits)).toBits

/-- A number to the power of another. -/
def power (base exponent : Binary64) : Binary64 :=
  match exponent with
  | nan => nan
  | infinite _ => if base.abs = ofNat 1 then nan else machinePower base exponent
  | finite _ _ _ =>
    match exponent.toInt?.bind base.whole? with
    | some result => result
    | none => machinePower base exponent

end Binary64

end Formulary
