/-
  Formulary.Csv

  Tables as comma-separated values.

  Reading: a field that starts with a double quote runs to the next single one, and two
  in a row stand for one; behind the closing quote a field goes on like a bare one. A
  quote anywhere else is a character like others. Records end at a line feed or a
  carriage return, empty lines do not count, and a byte order mark in front is dropped.

  Writing: a field is put in quotes only if it holds a comma, a quote or a line end. A
  record that would be an empty line is written as a pair of quotes.
-/

namespace Formulary

namespace Csv

/-- A record: its fields from left to right. -/
abbrev Record := List String

/-! ## Reading -/

/-- Where in a record the reader is. -/
inductive Place where
  /-- At the start of a line; the record has no field yet. -/
  | lineStart
  | fieldStart
  | bare
  | quoted
  /-- Behind a quote inside quotes, which closes them unless another one follows. -/
  | quoteSeen
  deriving DecidableEq, Repr

/-- A record from its finished fields and the characters of its last one, both latest
first. -/
def record (fields : List String) (field : List Char) : Record :=
  (String.ofList field.reverse :: fields).reverse

/-- The records of the rest of a text, where `fields` and `field` are what the current
record holds so far, latest first. -/
def recordsFrom (place : Place) (fields : List String) (field : List Char) :
    List Char → List Record
  | [] => if place = .lineStart then [] else [record fields field]
  | c :: cs =>
    if place = .quoted then
      if c = '"' then recordsFrom .quoteSeen fields field cs
      else recordsFrom .quoted fields (c :: field) cs
    else if place = .quoteSeen && c = '"' then recordsFrom .quoted fields (c :: field) cs
    else if c = '\n' || c = '\r' then
      if place = .lineStart then recordsFrom .lineStart fields field cs
      else record fields field :: recordsFrom .lineStart [] [] cs
    else if c = ',' then
      recordsFrom .fieldStart (String.ofList field.reverse :: fields) [] cs
    else if (place = .lineStart || place = .fieldStart) && c = '"' then
      recordsFrom .quoted fields field cs
    else recordsFrom .bare fields (c :: field) cs

/-- The records of a text. -/
def records (text : String) : List Record :=
  match text.toList with
  | '\uFEFF' :: cs => recordsFrom .lineStart [] [] cs
  | cs => recordsFrom .lineStart [] [] cs

/-! ## Writing -/

/-- Whether a field has to be put in quotes. -/
def needsQuotes (field : String) : Bool :=
  field.toList.any fun c => c = ',' || c = '"' || c = '\n' || c = '\r'

/-- A character as it is written in quotes. -/
def writeQuoted (c : Char) : List Char := if c = '"' then ['"', '"'] else [c]

/-- A field as it is written. -/
def writeField (field : String) : String :=
  if needsQuotes field then String.ofList ('"' :: field.toList.flatMap writeQuoted ++ ['"'])
  else field

/-- A record as the line it is written in. -/
def writeRecord (r : Record) : String :=
  let line := ",".intercalate (r.map writeField)
  (if line = "" then "\"\"" else line) ++ "\n"

end Csv

end Formulary
