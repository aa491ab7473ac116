/-
  Formulary.Command.Outcome

  What a command does: the text and the messages it prints, the files it writes and its
  exit code, as a function of the command and the files it finds.

  `run` reads the formulas, makes sure of the records, creates the output and only then
  reads the records. If it meets a record that does not fit the header it stops there,
  and what it has written up to then stays.

  Paths are compared as texts. Several paths of one file, such as `r.csv` and `./r.csv` or a
  link, are not modelled: where the output is the file of the records under another path,
  `run` reads the records as if they were still there.
-/

import Formulary.Command
import Formulary.Json.Dictionary
import Formulary.Listing
import Formulary.Table

namespace Formulary

/-- The files that a command finds, and which ones it can create. -/
structure Directory where
  read? : String → Option String
  canCreate : String → Bool

/-- What a command does. The messages are lines, the last of them an error if the exit
code is not zero. -/
structure Outcome where
  code : Nat
  output : String
  messages : List String
  written : List (String × String)
  deriving DecidableEq, Repr

namespace Outcome

/-- Success with the given text and messages. -/
def success (output : String) (messages : List String) : Outcome := ⟨0, output, messages, []⟩

/-- Failure with a last message, after the given text. -/
def failure (output message : String) : Outcome := ⟨1, output, ["Error: " ++ message], []⟩

/-- Lines as text. -/
def ofLines (lines : List String) : String := String.join (lines.map (· ++ "\n"))

/-! ## Single formulas -/

/-- The listing of a formula's tokens. -/
def tokens (formula : String) : Outcome := success (ofLines ((tokenize formula).map Token.line)) []

/-- The listing of a formula's faults; a failure if there are any. -/
def check (formula : String) (allowed : Option (List String)) : Outcome :=
  match Fault.check allowed (tokenize formula) with
  | [] => success "" ["Formula is valid"]
  | faults =>
    failure (ofLines (faults.map Fault.message)) (toString faults.length ++ " validation error(s)")

/-- The value of a formula. -/
def eval (formula : String) (fields : List (String × String)) : Outcome :=
  success (Expr.value (Scope.ofRecord fields).get (Expr.ofFormula formula) ++ "\n") []

/-! ## Dictionaries of formulas -/

/-- A path between single quotes. -/
def namePath (path : String) : String := "'" ++ path ++ "'"

/-- The failure to open a file. -/
def cannotOpen (path : String) : Outcome := failure "" ("Failed to open " ++ namePath path)

/-- Continues with the formulas of the dictionary in a file. -/
def withFormulas (dir : Directory) (path : String) (next : List (String × String) → Outcome) :
    Outcome :=
  match dir.read? path with
  | none => cannotOpen path
  | some text =>
    match Json.dictionary? text with
    | none => failure "" (namePath path ++ " must hold a JSON object of name -> formula")
    | some formulas => next formulas

/-- The listing of resolved formulas. -/
def resolve (allowed : Option (List String)) (json : Bool) (formulas : List (String × String)) :
    Outcome :=
  let rs := Resolution.byName (Formulary.resolve (allowed.getD []) formulas)
  if json then success ((Resolution.json rs).write ++ "\n") []
  else
    let invalid := (rs.filter fun r => !r.isValid).length
    success (ofLines (rs.flatMap Resolved.lines))
      [String.join ["Resolved ", toString rs.length, " formulas (", toString invalid, " invalid)"]]

/-! ## Tables -/

/-- The warning about a formula that has faults. -/
def warning (r : Resolved) : String :=
  String.join ["Warning: formula '", r.formula.given, "' is invalid: ",
    "; ".intercalate (r.faults.map Fault.message)]

/-- The messages about a computed table: the warnings, and behind them the given line or,
if a record does not fit the header, the error about it. -/
def report (t : Table) (formulas : List (String × String)) (line : String) : List String :=
  (t.worksheet formulas).invalid.map warning ++
    [match t.misfit? with
      | none => line
      | some number => "Error: Failed to read CSV record " ++ toString number]

/-- The exit code for a computed table. -/
def tableCode (t : Table) : Nat := if t.misfit?.isSome then 1 else 0

/-- The rows of a computed table as text. -/
def tableText (t : Table) (formulas : List (String × String)) : String :=
  String.join ((t.withColumns formulas).map Csv.writeRecord)

/-- The table computed and printed. -/
def printTable (formulas : List (String × String)) (t : Table) : Outcome :=
  let line := String.join ["Calculated ", toString t.fitting.length, " rows"]
  ⟨tableCode t, tableText t formulas, report t formulas line, []⟩

/-- The table computed and written to a file. -/
def writeTable (formulas : List (String × String)) (path : String) (t : Table) : Outcome :=
  let line := String.join ["Wrote ", toString t.fitting.length, " rows to ", namePath path]
  ⟨tableCode t, "", report t formulas line, [(path, tableText t formulas)]⟩

/-- The formulas computed for the records of a file, and printed or written. Creating the
output empties the records if they are in the same file. -/
def run (dir : Directory) (records : String) (output : Option String)
    (formulas : List (String × String)) : Outcome :=
  match dir.read? records, output with
  | none, _ => cannotOpen records
  | some text, none => printTable formulas (Table.ofRows (Csv.records text))
  | some text, some path =>
    if dir.canCreate path then
      writeTable formulas path (Table.ofRows (Csv.records (if path = records then "" else text)))
    else failure "" ("Failed to write " ++ namePath path)

end Outcome

/-- What a command does. -/
def Command.outcome (dir : Directory) : Command → Outcome
  | .tokens formula => Outcome.tokens formula
  | .check formula allowed => Outcome.check formula allowed
  | .eval formula fields => Outcome.eval formula fields
  | .resolve path allowed json => Outcome.withFormulas dir path (Outcome.resolve allowed json)
  | .run path records output => Outcome.withFormulas dir path (Outcome.run dir records output)

end Formulary
