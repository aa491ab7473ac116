/-
  Formulary.Json

  The part of JSON that listings of formulas need, and its indented form: two spaces a
  level, one item a line, empty lists and objects in one piece. Characters beyond ASCII
  are written as they are.
-/

namespace Formulary

/-- A value. The members of an object keep their order. -/
inductive Json where
  | null
  | number (n : Nat)
  | text (s : String)
  | list (items : List Json)
  | object (members : List (String × Json))
  deriving Repr, Inhabited

namespace Json

/-- One character of a text. -/
def writeChar (c : Char) : List Char :=
  match c with
  | '"' => ['\\', '"']
  | '\\' => ['\\', '\\']
  | '\x08' => ['\\', 'b']
  | '\x0c' => ['\\', 'f']
  | '\n' => ['\\', 'n']
  | '\r' => ['\\', 'r']
  | '\t' => ['\\', 't']
  | c =>
    if c.toNat < 0x20 then
      ['\\', 'u', '0', '0', Nat.digitChar (c.toNat / 16), Nat.digitChar (c.toNat % 16)]
    else [c]

/-- A text in quotes. -/
def writeText (s : String) : String :=
  String.ofList ('"' :: s.toList.flatMap writeChar ++ ['"'])

/-- Lines between two brackets, or the brackets alone if there are none. -/
def enclose (before after indent : String) (lines : List String) : String :=
  if lines.isEmpty then before ++ after
  else
    String.join [before, "\n", ",\n".intercalate (lines.map fun l => indent ++ "  " ++ l), "\n",
      indent, after]

mutual

/-- A value in indented form, its first line aside indented by `indent`. -/
def writeAt (indent : String) : Json → String
  | null => "null"
  | number n => toString n
  | text s => writeText s
  | list items => enclose "[" "]" indent (writeItems (indent ++ "  ") items)
  | object members => enclose "\x7b" "\x7d" indent (writeMembers (indent ++ "  ") members)

/-- The items of a list. -/
def writeItems (indent : String) : List Json → List String
  | [] => []
  | j :: js => writeAt indent j :: writeItems indent js

/-- The members of an object, each with its name. -/
def writeMembers (indent : String) : List (String × Json) → List String
  | [] => []
  | (name, j) :: ms => (writeText name ++ ": " ++ writeAt indent j) :: writeMembers indent ms

end

/-- A value in indented form. -/
def write (j : Json) : String := writeAt "" j

end Json

end Formulary
