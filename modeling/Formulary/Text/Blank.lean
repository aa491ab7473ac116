/-
  Formulary.Text.Blank

  Blank space: the characters that separate the parts of a formula and that may
  stand around a number.

    * `isBlank`: the property White_Space of Unicode, which knows more than the
      blanks of ASCII (a no-break space is one, a zero-width space is not).
    * `trim`: a text without the blanks at its two ends.
-/

namespace Formulary.Text

/-- The characters with Unicode's property White_Space. -/
def isBlank (c : Char) : Bool :=
  let n := c.toNat
  (0x9 ≤ n && n ≤ 0xD) || n == 0x20 || n == 0x85 || n == 0xA0 || n == 0x1680 ||
    (0x2000 ≤ n && n ≤ 0x200A) || n == 0x2028 || n == 0x2029 || n == 0x202F ||
    n == 0x205F || n == 0x3000

/-- The text between the blanks at its start and the blanks at its end. -/
def trim (cs : List Char) : List Char :=
  ((cs.dropWhile isBlank).reverse.dropWhile isBlank).reverse

end Formulary.Text
