/-
  Formulary.Expr.Value

  The value of an expression, a text. References are looked up by the caller: `valueM`
  asks in the order of the text and each time anew, in whatever monad the caller looks
  them up in; `value` is the plain case.
-/

import Formulary.Catalogue
import Formulary.Expr

namespace Formulary

namespace Expr

variable {m : Type → Type} [Monad m]

mutual

/-- The value of an expression; every reference is looked up under its name as written. -/
def valueM (look : String → m String) : Expr → m String
  | number text => pure text
  | quoted text => pure text
  | reference name => look name
  | operation symbol operands => do return applyOperator symbol (← valuesM look operands)
  | call function arguments => do return applyFunction function (← valuesM look arguments)
  | group items => do return String.join (← valuesM look items)

/-- The values of expressions from left to right. -/
def valuesM (look : String → m String) : List Expr → m (List String)
  | [] => pure []
  | e :: es => do
    let v ← valueM look e
    let vs ← valuesM look es
    return v :: vs

end

/-- The values of all expressions of a formula, one behind the other. -/
def joinedM (look : String → m String) (es : List Expr) : m String := do
  return String.join (← valuesM look es)

/-- The value of the expressions of a formula. -/
def value (look : String → String) (es : List Expr) : String := joinedM (m := Id) look es

/-- A look-up that notes the names it is asked for, the latest first. -/
def noting (look : String → String) (name : String) : StateM (List String) String := do
  modify (name :: ·)
  return look name

/-- The value of the expressions of a formula, and the names it looks up in order. -/
def trace (look : String → String) (es : List Expr) : String × List String :=
  let (v, names) := (joinedM (noting look) es).run []
  (v, names.reverse)

end Expr

end Formulary
