/-
  Formulary.Fault

  A problem at its place in a formula. The place is the index of a token and the token
  itself; a problem of the formula as a whole has none.
-/

import Formulary.Problem
import Formulary.Token

namespace Formulary

/-- A problem of a formula and the token it concerns, if it concerns one. -/
structure Fault where
  problem : Problem
  place : Option (Nat × Token)
  deriving DecidableEq, Repr

namespace Fault

/-- A problem of the token with the given index. -/
def atToken (index : Nat) (t : Token) (p : Problem) : Fault := ⟨p, some (index, t)⟩

/-- A problem of the formula as a whole. -/
def ofWhole (p : Problem) : Fault := ⟨p, none⟩

/-- The line that tells a reader of a fault. -/
def message (f : Fault) : String :=
  match f.place with
  | some (index, t) =>
    String.join [f.problem.message, " at token ", toString index, " (\x60", t.text, "\x60)"]
  | none => f.problem.message

end Fault

end Formulary
