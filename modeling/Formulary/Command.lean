/-
  Formulary.Command

  The commands of the program and the command lines that state them.

    * `tokens FORMULA` lists the tokens of a formula.
    * `check FORMULA [-r NAMES]` lists the faults of a formula.
    * `eval FORMULA [-f NAME=VALUE]` computes a formula.
    * `resolve FILE [-r NAMES] [--json]` lists the formulas of a dictionary.
    * `run FILE RECORDS [-o FILE]` computes the formulas of a dictionary for every record
      of a table.
-/

import Formulary.Command.Arguments
import Formulary.Text.Blank

namespace Formulary

/-- A command. -/
inductive Command where
  | tokens (formula : String)
  | check (formula : String) (allowed : Option (List String))
  | eval (formula : String) (fields : List (String × String))
  | resolve (formulas : String) (allowed : Option (List String)) (json : Bool)
  | run (formulas records : String) (output : Option String)
  deriving DecidableEq, Repr

namespace Command

/-- The option for allowed reference names, separated by commas. -/
def refsOption : OptionRule := ⟨"refs", some 'r', true, true⟩

/-- The option for the value of a field. -/
def fieldOption : OptionRule := ⟨"field", some 'f', true, true⟩

/-- The option for a machine-readable listing. -/
def jsonOption : OptionRule := ⟨"json", none, false, false⟩

/-- The option for the file that the results go to. -/
def outputOption : OptionRule := ⟨"output", some 'o', true, false⟩

/-- The parts of a text between its separators, one more than there are separators. -/
def separated (separator : Char) : List Char → List (List Char)
  | [] => [[]]
  | c :: cs =>
    if c = separator then [] :: separated separator cs
    else
      match separated separator cs with
      | part :: parts => (c :: part) :: parts
      | [] => [[c]]

/-- The allowed names that the values of the option list, `none` if it is not given. -/
def allowedNames (values : List String) : Option (List String) :=
  if values.isEmpty then none
  else some (values.flatMap fun v => (separated ',' v.toList).map String.ofList)

/-- A field of the form `name=value`; blanks around the name do not count. -/
def field? (arg : String) : Option (String × String) :=
  match Argument.splitEquals arg.toList with
  | (name, some value) => some (String.ofList (Text.trim name), String.ofList value)
  | (_, none) => none

/-- The plain values and the options of a command line, if it obeys the rules. -/
def arguments? (rules : List OptionRule) (args : List String) :
    Option (List String × List Argument) := do
  let parsed ← Argument.parse? rules args
  if Argument.respects rules parsed then some (Argument.plainValues parsed, parsed) else none

/-- A path, which is not empty. -/
def path? (s : String) : Option String := if s = "" then none else some s

/-- The command that a command line states, `none` if it is mistaken. -/
def parse? (args : List String) : Option Command :=
  match args with
  | "tokens" :: rest => do
    let (values, _) ← arguments? [] rest
    match values with
    | [formula] => some (tokens formula)
    | _ => none
  | "check" :: rest => do
    let (values, options) ← arguments? [refsOption] rest
    match values with
    | [formula] => some (check formula (allowedNames (Argument.optionValues "refs" options)))
    | _ => none
  | "eval" :: rest => do
    let (values, options) ← arguments? [fieldOption] rest
    let fields ← (Argument.optionValues "field" options).mapM field?
    match values with
    | [formula] => some (eval formula fields)
    | _ => none
  | "resolve" :: rest => do
    let (values, options) ← arguments? [refsOption, jsonOption] rest
    match values with
    | [formulas] =>
      some (resolve (← path? formulas) (allowedNames (Argument.optionValues "refs" options))
        !(Argument.optionValues "json" options).isEmpty)
    | _ => none
  | "run" :: rest => do
    let (values, options) ← arguments? [outputOption] rest
    let output ← (Argument.optionValues "output" options).mapM path?
    match values with
    | [formulas, records] => some (run (← path? formulas) (← path? records) output.head?)
    | _ => none
  | _ => none

end Command

end Formulary
