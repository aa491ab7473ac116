/-
  Formulary.Command.Arguments

  The arguments of a command line: plain values and options.

  An option is given by its long name behind two dashes or by its letter behind one. Its
  value is the next argument, or stands in the same one: behind an equals sign, or
  directly behind the letter. Behind an argument `--` everything is a plain value. An
  argument that starts with a dash and is no option, or stands where the value of an
  option should be, is a mistake; a single dash is a plain value.
-/

namespace Formulary

/-- An option that a command knows. -/
structure OptionRule where
  name : String
  letter : Option Char
  takesValue : Bool
  repeatable : Bool
  deriving DecidableEq, Repr

/-- An argument as it is understood. -/
inductive Argument where
  | plain (value : String)
  | option (name : String) (value : String)
  deriving DecidableEq, Repr

namespace Argument

/-- A text up to the first equals sign, and what stands behind it if there is one. -/
def splitEquals (cs : List Char) : List Char × Option (List Char) :=
  let name := cs.takeWhile (· ≠ '=')
  match cs.dropWhile (· ≠ '=') with
  | _ :: value => (name, some value)
  | [] => (name, none)

/-- How an argument that starts an option is written: the option, and the value in the
same argument. -/
def asOption? (rules : List OptionRule) (arg : List Char) :
    Option (OptionRule × Option (List Char)) :=
  match arg with
  | '-' :: '-' :: cs =>
    let (name, value) := splitEquals cs
    (rules.find? fun r => r.name = String.ofList name).map (·, value)
  | '-' :: letter :: cs =>
    let value :=
      match cs with
      | [] => none
      | '=' :: value => some value
      | value => some value
    (rules.find? fun r => r.letter = some letter).map (·, value)
  | _ => none

/-- Whether an argument is a plain value even where options are understood. -/
def isPlain (arg : List Char) : Bool :=
  match arg with
  | '-' :: _ :: _ => false
  | _ => true

/-- The arguments of a command that knows the options `rules`; `none` for a mistake. -/
def parse? (rules : List OptionRule) : List String → Option (List Argument)
  | [] => some []
  | arg :: rest =>
    if arg = "--" then some (rest.map plain)
    else if isPlain arg.toList then (parse? rules rest).map (plain arg :: ·)
    else
      match asOption? rules arg.toList with
      | none => none
      | some (r, some value) =>
        if r.takesValue then (parse? rules rest).map (option r.name (String.ofList value) :: ·)
        else none
      | some (r, none) =>
        if !r.takesValue then (parse? rules rest).map (option r.name "" :: ·)
        else
          match rest with
          | [] => none
          | value :: rest =>
            if isPlain value.toList then (parse? rules rest).map (option r.name value :: ·)
            else none

/-- The plain values among the arguments. -/
def plainValues (args : List Argument) : List String :=
  args.filterMap fun
    | plain value => some value
    | option _ _ => none

/-- The values of an option, in order. -/
def optionValues (name : String) (args : List Argument) : List String :=
  args.filterMap fun
    | plain _ => none
    | option n value => if n = name then some value else none

/-- Whether no option is given twice that may be given only once. -/
def respects (rules : List OptionRule) (args : List Argument) : Bool :=
  rules.all fun r => r.repeatable || (optionValues r.name args).length ≤ 1

end Argument

end Formulary
