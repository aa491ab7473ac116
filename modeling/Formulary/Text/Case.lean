/-
  Formulary.Text.Case

  Lower and upper case of whole texts, by the full case mappings of Unicode.

    * `lower`: one character at a time, except that a capital sigma at the end
      of a word becomes the final sigma `ς`; the dotted capital `İ` is the one
      character whose lower-case form has two characters.
    * `upper`: one character at a time; some characters grow (`ß` to `SS`).

  Formula names, function names and reference names are compared by `lower`.
-/

import Formulary.Text.CaseTable

namespace Formulary.Text

/-- Whether a code point lies in one of the ranges. -/
def inRanges (ranges : List (Nat × Nat)) (n : Nat) : Bool :=
  ranges.any fun r => r.1 ≤ n && n ≤ r.2

/-- The code point that the first run holding `n` maps it to; `n` itself outside all runs. -/
def mapByRuns (runs : List (Nat × Nat × Nat × Int)) (n : Nat) : Nat :=
  match runs.find? fun (first, last, step, _) =>
      first ≤ n && n ≤ last && (n - first) % step == 0 with
  | some (_, _, _, offset) => (Int.ofNat n + offset).toNat
  | none => n

/-- Letters that have, or are, a case form. -/
def isCased (c : Char) : Bool := inRanges casedRanges c.toNat

/-- Characters that the rule of the final sigma looks through. -/
def isCaseIgnorable (c : Char) : Bool := inRanges caseIgnorableRanges c.toNat

/-- The lower-case form of a character that stands alone. -/
def lowerChar (c : Char) : List Char :=
  if c.toNat = 0x130 then ['i', Char.ofNat 0x307]
  else [Char.ofNat (mapByRuns lowerRuns c.toNat)]

/-- The upper-case form of a character. -/
def upperChar (c : Char) : List Char :=
  match upperExpansions.lookup c.toNat with
  | some codes => codes.map Char.ofNat
  | none => [Char.ofNat (mapByRuns upperRuns c.toNat)]

/-- Whether a cased letter comes next, marks and signs passed over. -/
def casedNext (cs : List Char) : Bool :=
  match cs.dropWhile isCaseIgnorable with
  | [] => false
  | c :: _ => isCased c

/-- Lower case of `cs`, which follows the characters `before` (nearest first). A capital
sigma is final when a letter stands before it and none after it. -/
def lowerAfter (before : List Char) : List Char → List Char
  | [] => []
  | c :: cs =>
    let here :=
      if c.toNat = 0x3A3 then
        [Char.ofNat (if casedNext before && !casedNext cs then 0x3C2 else 0x3C3)]
      else lowerChar c
    here ++ lowerAfter (c :: before) cs

/-- A text in lower case. -/
def lower (s : String) : String := String.ofList (lowerAfter [] s.toList)

/-- A text in upper case. -/
def upper (s : String) : String := String.ofList (s.toList.flatMap upperChar)

end Formulary.Text
