/-
  Formulary.Binary64.Bits

  The interchange format of binary64 numbers: one bit of sign, eleven of exponent and 52
  of fraction. Exponent zero is for the magnitudes below 2^52 units, which have no
  leading bit; the largest exponent is for the infinities and for `nan`.
-/

import Formulary.Binary64

namespace Formulary

namespace Binary64

/-- The magnitude with the given fields, in units. -/
def unitsOfFields (exponent fraction : Nat) : Nat :=
  if exponent = 0 then fraction else (Nat.pow 2 52 + fraction) * Nat.pow 2 (exponent - 1)

/-- The number with the given bit pattern. -/
def ofBits (bits : UInt64) : Binary64 :=
  let n := bits.toNat
  let negative := n / Nat.pow 2 63 == 1
  let exponent := n / Nat.pow 2 52 % Nat.pow 2 11
  let fraction := n % Nat.pow 2 52
  if exponent = 2047 then (if fraction = 0 then infinite negative else nan)
  else ofUnits negative (unitsOfFields exponent fraction)

/-- The fields of a magnitude, the exponent above the 52 bits of the fraction. -/
def magnitudeBits (u : Nat) : Nat :=
  if u < Nat.pow 2 52 then u
  else
    let shift := u.log2 - 52
    (shift + 1) * Nat.pow 2 52 + (u / Nat.pow 2 shift - Nat.pow 2 52)

/-- The bit pattern of a number. -/
def toBits (x : Binary64) : UInt64 :=
  let sign := if x.isNegative then Nat.pow 2 63 else 0
  match x with
  | nan => 0x7FF8000000000000
  | infinite _ => (sign + 0x7FF0000000000000).toUInt64
  | finite _ u _ => (sign + magnitudeBits u).toUInt64

end Binary64

end Formulary
