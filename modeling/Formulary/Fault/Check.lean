/-
  Formulary.Fault.Check

  The check of a formula's own tokens, in one pass from left to right. What a token may
  be depends on its nearest neighbours that are not blank and on what is open at it:
  quotes, braces, brackets of calls and other brackets, innermost first.

  The faults come in the order of their tokens; behind them stands one for everything
  that is still open at the end, in the order of opening.
-/

import Formulary.Catalogue
import Formulary.Fault

namespace Formulary

/-- What a token may open. -/
inductive Opening where
  | quote
  | doubleQuote
  /-- The bracket of a call. -/
  | call
  /-- A bracket that is not the bracket of a call. -/
  | group
  | brace
  deriving DecidableEq, Repr

namespace Opening

/-- The problem of something that is never closed. -/
def unclosed : Opening → Problem
  | quote => .unclosedQuote
  | doubleQuote => .unclosedDoubleQuote
  | call | group => .unclosedBracket
  | brace => .unclosedReferenceBracket

/-- Whether this is a bracket, of a call or not. -/
def isBracket (o : Opening) : Bool := o = call || o = group

end Opening

/-- Something open: what it is, and the token that opened it. -/
structure Open where
  opening : Opening
  index : Nat
  token : Token
  deriving DecidableEq, Repr

namespace Fault

/-- Whether a value needs an operator between itself and what stands before it. -/
def needsOperator (before : Option Kind) : Bool :=
  before.any fun k => !(k = .operator || k = .comma || k = .openBracket)

/-- Whether a value ends directly before. -/
def valueEnded (before : Option Kind) : Bool := before.any Kind.endsValue

/-- A problem, if the condition holds. -/
def require (condition : Bool) (p : Problem) : List Problem := if condition then [p] else []

/-- What a token opens, given the kind before it. -/
def opens (before : Option Kind) (t : Token) : Option Opening :=
  match t.kind with
  | .openQuote => some .quote
  | .openDoubleQuote => some .doubleQuote
  | .openBracket => some (if before = some .function then .call else .group)
  | .openBrace => some .brace
  | _ => none

/-- Whether a token closes what was opened last. -/
def closes (t : Token) (o : Opening) : Bool :=
  match t.kind with
  | .closeQuote => o = .quote
  | .closeDoubleQuote => o = .doubleQuote
  | .closeBracket => o.isBracket
  | .closeBrace => o = .brace
  | _ => false

/-- What is open behind a token. -/
def openBehind (before : Option Kind) (opened : List Open) (index : Nat) (t : Token) : List Open :=
  match opens before t with
  | some o => ⟨o, index, t⟩ :: opened
  | none =>
    match opened with
    | [] => []
    | o :: outer => if closes t o.opening then outer else o :: outer

/-- The problems of one token. The kinds before and after it are those of its neighbours
that are not blank; `allowed` holds the reference names that are allowed, in lower case. -/
def problems (allowed : Option (List String)) (before after : Option Kind)
    (opened : List Opening) (t : Token) : List Problem :=
  let closesLast := opened.head?.any (closes t)
  match t.kind with
  | .operator =>
    require (!valueEnded before && !(t.isSign && after.any Kind.startsValue)) .unexpectedOperator ++
      require (after = none) .valueRequiredAfterOperator
  | .number => require (needsOperator before) .operatorRequiredBeforeNumber
  | .function =>
    require (needsOperator before) .operatorRequiredBeforeFunction ++
      require (!isFunction t.text) .invalidFunction
  | .openQuote | .openDoubleQuote => require (needsOperator before) .operatorRequiredBeforeQuote
  | .comma => require (.call ∉ opened || !valueEnded before) .unexpectedComma
  | .unknown => [.invalidCharacter]
  | .openBracket =>
    require (before ≠ some .function && needsOperator before) .operatorRequiredBeforeBracket
  | .closeBracket =>
    require (!closesLast || (!valueEnded before && before ≠ some .openBracket)) .unexpectedBracket
  | .openBrace => require (needsOperator before) .operatorRequiredBeforeReference
  | .closeBrace =>
    if closesLast then require (before ≠ some .reference) .referenceNameRequiredInBrackets
    else [.unexpectedReferenceBracket]
  | .reference =>
    require (allowed.any fun names => Text.lower t.text ∉ names) .unsupportedReferenceName
  | .quoted | .blank | .group | .closeQuote | .closeDoubleQuote => []

/-- The kind of the first token that is not blank. -/
def nextKind (ts : List Token) : Option Kind := (ts.find? fun t => !t.isBlank).map Token.kind

/-- The faults of things that are open at the end, in the order of opening. -/
def ofUnclosed (opened : List Open) : List Fault :=
  opened.reverse.map fun o => atToken o.index o.token o.opening.unclosed

/-- The faults from the token with the given index on. -/
def checkFrom (allowed : Option (List String)) (index : Nat) (before : Option Kind)
    (opened : List Open) : List Token → List Fault
  | [] => ofUnclosed opened
  | t :: ts =>
    (problems allowed before (nextKind ts) (opened.map Open.opening) t).map (atToken index t) ++
      checkFrom allowed (index + 1) (t.lastKind before) (openBehind before opened index t) ts

/-- The faults of a formula's own tokens. Without a list of allowed names every reference
is allowed; upper and lower case are alike. -/
def check (allowed : Option (List String)) (ts : List Token) : List Fault :=
  checkFrom (allowed.map fun names => names.map Text.lower) 0 none [] ts

end Fault

end Formulary
