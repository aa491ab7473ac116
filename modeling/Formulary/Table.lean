/-
  Formulary.Table

  Tables of records with computed columns. The header names the fields of the records.
  `withColumns` copies header and records and adds a column for every formula, in which
  each record has the formula's value, or `#ERROR` if the formula has none.

  A record that is not as long as the header ends the table.
-/

import Formulary.Csv
import Formulary.Worksheet

namespace Formulary

/-- A header and the records below it. -/
structure Table where
  header : Csv.Record
  records : List Csv.Record
  deriving DecidableEq, Repr

namespace Table

/-- The table with the given rows, the first of them the header. -/
def ofRows : List Csv.Record → Table
  | [] => ⟨[], []⟩
  | header :: records => ⟨header, records⟩

/-- Whether a record has a field for every name in the header. -/
def fits (t : Table) (r : Csv.Record) : Bool := r.length = t.header.length

/-- The records before the first one that does not fit the header. -/
def fitting (t : Table) : List Csv.Record := t.records.takeWhile t.fits

/-- The number of the first record that does not fit the header, counted from one. -/
def misfit? (t : Table) : Option Nat :=
  if t.records.all t.fits then none else some (t.fitting.length + 1)

/-- The worksheet of formulas that may refer to the fields of the table. -/
def worksheet (t : Table) (formulas : List (String × String)) : Worksheet :=
  Worksheet.ofPairs (some t.header) formulas

/-- The cell of a formula that has no value. -/
def errorCell : String := "#ERROR"

/-- A record with the results of the named formulas behind its own fields. -/
def extend (t : Table) (w : Worksheet) (names : List String) (r : Csv.Record) : Csv.Record :=
  let results := w.compute (t.header.zip r)
  r ++ names.map fun n => (results.values.lookup n).getD errorCell

/-- The rows of the table with a column for every formula, as far as its records fit. -/
def withColumns (t : Table) (formulas : List (String × String)) : List Csv.Record :=
  let names := formulas.map Prod.fst
  (t.header ++ names) :: t.fitting.map (t.extend (t.worksheet formulas) names)

end Table

end Formulary
