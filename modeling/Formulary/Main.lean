/-
  Formulary.Main

  The program: reads the command line and the files it names, and prints and writes what
  the command's outcome says. A mistaken command line ends with code 2.
-/

import Formulary.Command.Outcome

namespace Formulary

/-- The content of a file, `none` if it cannot be read. -/
def contentOf (path : String) : IO (Option String) := do
  try
    return some (← IO.FS.readFile path)
  catch _ => return none

/-- The files that a command reads. -/
def Command.inputs : Command → List String
  | .resolve formulas _ _ => [formulas]
  | .run formulas records _ => [formulas, records]
  | _ => []

/-- The given files, and whether a file can be created. -/
def directoryOf (files : List (String × Option String)) (canCreate : Bool) : Directory where
  read? path := (files.lookup path).join
  canCreate _ := canCreate

/-- Writes files; whether all of them could be written. -/
def writeAll (files : List (String × String)) : IO Bool := do
  try
    for (path, content) in files do
      IO.FS.writeFile path content
    return true
  catch _ => return false

/-- Runs the command that the arguments state. -/
def runCommand (args : List String) : IO UInt32 := do
  match Command.parse? args with
  | none =>
    IO.eprintln "error: the command line is not understood"
    return 2
  | some command =>
    let files ← command.inputs.mapM fun path => do return (path, ← contentOf path)
    let hopeful := command.outcome (directoryOf files true)
    let outcome :=
      if ← writeAll hopeful.written then hopeful else command.outcome (directoryOf files false)
    IO.print outcome.output
    for line in outcome.messages do
      IO.eprintln line
    return outcome.code.toUInt32

end Formulary

/-- Runs the program on its arguments. -/
def main (args : List String) : IO UInt32 := Formulary.runCommand args
