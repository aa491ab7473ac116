/-
  Formulary.Text.Quoted

  A text between double quotes as a listing shows it, so that every character can be
  told from every other: `\t`, `\n`, `\r`, `\0`, `\"` and `\\` for those six, and
  `\u{…}` with the code point in lower-case hexadecimal for a character without a
  printed form of its own. A single quote stays as it is.
-/

import Formulary.Text.Case
import Formulary.Text.InvisibleTable

namespace Formulary.Text

/-- Characters without a printed form of their own. -/
def isInvisible (c : Char) : Bool := inRanges invisibleRanges c.toNat

/-- One character of a quoted text. -/
def quoteChar (c : Char) : List Char :=
  match c with
  | '\x00' => ['\\', '0']
  | '\t' => ['\\', 't']
  | '\n' => ['\\', 'n']
  | '\r' => ['\\', 'r']
  | '"' => ['\\', '"']
  | '\\' => ['\\', '\\']
  | c =>
    if isInvisible c then ['\\', 'u', '\x7b'] ++ Nat.toDigits 16 c.toNat ++ ['\x7d']
    else [c]

/-- A text in double quotes. -/
def quoted (s : String) : String :=
  String.ofList ('"' :: s.toList.flatMap quoteChar ++ ['"'])

end Formulary.Text
