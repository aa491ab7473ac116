/-
  Formulary.Catalogue

  The functions and operators that formulas know. A function is found by its name in
  lower case; defining one again replaces it. A function or operator that is not known
  has the empty text as its value.
-/

import Formulary.Builtin.Textual
import Formulary.Builtin.Numeric
import Formulary.Builtin.Logical

namespace Formulary

/-- A function of a formula: the name it was given and its value on the texts of its
arguments. -/
structure Function where
  name : String
  apply : List String → String

/-- The functions that are known, each under its name in lower case. -/
structure Catalogue where
  functions : List (String × Function)

namespace Catalogue

/-- The function with a name, upper and lower case being alike. -/
def find? (c : Catalogue) (name : String) : Option Function := c.functions.lookup (Text.lower name)

/-- The catalogue with one more function, in the place of any of the same name. -/
def define (c : Catalogue) (f : Function) : Catalogue :=
  ⟨(Text.lower f.name, f) :: c.functions.filter fun entry => entry.1 ≠ Text.lower f.name⟩

/-- The names of all functions as they were given, in order of their code points. -/
def names (c : Catalogue) : List String :=
  (c.functions.map fun entry => entry.2.name).mergeSort fun a b => !decide (b < a)

/-- The functions that every formula may call. -/
def builtin : Catalogue where
  functions := [
    ("uppercase", ⟨"uppercase", Builtin.uppercase⟩),
    ("lowercase", ⟨"lowercase", Builtin.lowercase⟩),
    ("concatenate", ⟨"concatenate", Builtin.concatenate⟩),
    ("round", ⟨"round", Builtin.round⟩),
    ("ceil", ⟨"ceil", Builtin.ceil⟩),
    ("floor", ⟨"floor", Builtin.floor⟩),
    ("add", ⟨"add", Builtin.add⟩),
    ("multiply", ⟨"multiply", Builtin.multiply⟩),
    ("subtract", ⟨"subtract", Builtin.subtract⟩),
    ("divide", ⟨"divide", Builtin.divide⟩),
    ("pow", ⟨"pow", Builtin.pow⟩),
    ("max", ⟨"max", Builtin.max⟩),
    ("min", ⟨"min", Builtin.min⟩),
    ("lt", ⟨"lt", Builtin.lt⟩),
    ("lte", ⟨"lte", Builtin.lte⟩),
    ("eq", ⟨"eq", Builtin.eq⟩),
    ("gte", ⟨"gte", Builtin.gte⟩),
    ("gt", ⟨"gt", Builtin.gt⟩),
    ("if", ⟨"if", Builtin.choose⟩)]

end Catalogue

/-! ## Application -/

/-- Whether a function with this name is known. -/
def isFunction (name : String) : Bool := (Catalogue.builtin.find? name).isSome

/-- The value of a function on the texts of its arguments. -/
def applyFunction (name : String) (args : List String) : String :=
  match Catalogue.builtin.find? name with
  | some f => f.apply args
  | none => ""

/-- The operators and what they compute. -/
def operator? (symbol : String) : Option (List String → String) :=
  [("&", Builtin.concatenate), ("+", Builtin.add), ("-", Builtin.subtract),
    ("*", Builtin.multiply), ("/", Builtin.divide), ("^", Builtin.pow),
    ("<", Builtin.lt), ("<=", Builtin.lte), ("=", Builtin.eq), ("==", Builtin.eq),
    (">=", Builtin.gte), (">", Builtin.gt)].lookup symbol

/-- The value of an operator on the texts of its operands. -/
def applyOperator (symbol : String) (args : List String) : String :=
  match operator? symbol with
  | some apply => apply args
  | none => ""

end Formulary
