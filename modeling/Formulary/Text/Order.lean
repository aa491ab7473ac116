/-
  Formulary.Text.Order

  The order of two texts by their UTF-16 units. It differs from the order by code
  point where one text has a character beyond U+FFFF: its first unit is a high
  surrogate, which sorts below U+E000.
-/

namespace Formulary.Text

/-- The UTF-16 units of a character. -/
def units (c : Char) : List Nat :=
  let n := c.toNat
  if n < 0x10000 then [n] else [0xD800 + (n - 0x10000) / 0x400, 0xDC00 + (n - 0x10000) % 0x400]

/-- The UTF-16 units of a text. -/
def utf16 (s : String) : List Nat := s.toList.flatMap units

/-- Two texts by the first unit in which they differ; a text comes before its
extensions. -/
def compareUnits (s t : String) : Ordering := compare (utf16 s) (utf16 t)

end Formulary.Text
