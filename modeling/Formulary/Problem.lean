/-
  Formulary.Problem

  What can be wrong with a formula, and how a reader is told. Eighteen problems concern
  the formula's own tokens; four arise from its references to other formulas.
-/

namespace Formulary

/-- A kind of problem. -/
inductive Problem where
  | unexpectedOperator
  | valueRequiredAfterOperator
  | operatorRequiredBeforeNumber
  | operatorRequiredBeforeFunction
  | operatorRequiredBeforeQuote
  | operatorRequiredBeforeBracket
  | operatorRequiredBeforeReference
  | invalidFunction
  | invalidCharacter
  | unexpectedComma
  | unexpectedBracket
  | unexpectedReferenceBracket
  | referenceNameRequiredInBrackets
  | unsupportedReferenceName
  | unclosedQuote
  | unclosedDoubleQuote
  | unclosedBracket
  | unclosedReferenceBracket
  /-- A reference to a formula that refers back. -/
  | circularReference
  | circularReferenceToItself
  | dependsOnInvalid
  /-- The formula itself lies on no circle but needs one that does. -/
  | dependsOnCircular
  deriving DecidableEq, Repr

namespace Problem

/-- Every problem, in the order of the listing. -/
def all : List Problem :=
  [unexpectedOperator, valueRequiredAfterOperator, operatorRequiredBeforeNumber,
    operatorRequiredBeforeFunction, operatorRequiredBeforeQuote,
    operatorRequiredBeforeBracket, operatorRequiredBeforeReference, invalidFunction,
    invalidCharacter, unexpectedComma, unexpectedBracket, unexpectedReferenceBracket,
    referenceNameRequiredInBrackets, unsupportedReferenceName, unclosedQuote,
    unclosedDoubleQuote, unclosedBracket, unclosedReferenceBracket, circularReference,
    circularReferenceToItself, dependsOnInvalid, dependsOnCircular]

/-- The name of a problem in machine-readable listings. -/
def name : Problem → String
  | unexpectedOperator => "UnexpectedOperator"
  | valueRequiredAfterOperator => "ValueRequiredAfterOperator"
  | operatorRequiredBeforeNumber => "OperatorRequiredBeforeNumber"
  | operatorRequiredBeforeFunction => "OperatorRequiredBeforeFunction"
  | operatorRequiredBeforeQuote => "OperatorRequiredBeforeQuote"
  | operatorRequiredBeforeBracket => "OperatorRequiredBeforeBracket"
  | operatorRequiredBeforeReference => "OperatorRequiredBeforeReference"
  | invalidFunction => "InvalidFunction"
  | invalidCharacter => "InvalidCharacter"
  | unexpectedComma => "UnexpectedComma"
  | unexpectedBracket => "UnexpectedBracket"
  | unexpectedReferenceBracket => "UnexpectedReferenceBracket"
  | referenceNameRequiredInBrackets => "ReferenceNameRequiredInBrackets"
  | unsupportedReferenceName => "UnsupportedReferenceName"
  | unclosedQuote => "UnclosedQuote"
  | unclosedDoubleQuote => "UnclosedDoubleQuote"
  | unclosedBracket => "UnclosedBracket"
  | unclosedReferenceBracket => "UnclosedReferenceBracket"
  | circularReference => "CircularReference"
  | circularReferenceToItself => "CircularReferenceToItself"
  | dependsOnInvalid => "DependsOnInvalid"
  | dependsOnCircular => "DependsOnCircular"

/-- The problem with the given name. -/
def ofName? (s : String) : Option Problem := all.find? (·.name == s)

/-- The sentence that tells a reader of a problem. -/
def message : Problem → String
  | unexpectedOperator => "Unexpected operator"
  | valueRequiredAfterOperator => "A value is required after the operator"
  | operatorRequiredBeforeNumber => "An operator is required before the number"
  | operatorRequiredBeforeFunction => "An operator is required before the function"
  | operatorRequiredBeforeQuote => "An operator is required before the quote"
  | operatorRequiredBeforeBracket => "An operator is required before the bracket"
  | operatorRequiredBeforeReference => "An operator is required before the reference"
  | invalidFunction => "Unknown function"
  | invalidCharacter => "Invalid character"
  | unexpectedComma => "Unexpected comma"
  | unexpectedBracket => "Unexpected bracket"
  | unexpectedReferenceBracket => "Unexpected reference bracket"
  | referenceNameRequiredInBrackets => "A reference name is required between the braces"
  | unsupportedReferenceName => "Unsupported reference name"
  | unclosedQuote => "Unclosed quote"
  | unclosedDoubleQuote => "Unclosed double quote"
  | unclosedBracket => "Unclosed bracket"
  | unclosedReferenceBracket => "Unclosed reference bracket"
  | circularReference => "Circular reference"
  | circularReferenceToItself => "The formula references itself"
  | dependsOnInvalid => "Depends on an invalid formula"
  | dependsOnCircular => "Depends on a circular reference"

theorem mem_all (p : Problem) : p ∈ all := by cases p <;> decide

theorem ofName?_name (p : Problem) : ofName? p.name = some p := by cases p <;> decide

end Problem

end Formulary
