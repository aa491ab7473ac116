/-
  Formulary.Builtin.Textual

  Functions on texts. Every function of a formula takes the texts of its arguments and
  answers with a text.
-/

import Formulary.Text.Case

namespace Formulary

namespace Builtin

/-- The arguments in upper case, one behind the other. -/
def uppercase (args : List String) : String := String.join (args.map Text.upper)

/-- The arguments in lower case, one behind the other. -/
def lowercase (args : List String) : String := String.join (args.map Text.lower)

/-- The arguments, one behind the other. -/
def concatenate (args : List String) : String := String.join args

end Builtin

end Formulary
