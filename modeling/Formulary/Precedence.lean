/-
  Formulary.Precedence

  Precedence written out as brackets. Two rewrites of a token list leave it to the
  brackets alone what an operator binds:

    * `supplyZeros` puts a `0` before every sign without a left operand, so that every
      operator is binary;
    * `bracketed` closes and opens again, around every operator, as many levels as its
      rank says: the tighter an operator binds, the fewer. A comma is looser than every
      operator, and a written bracket stands for more levels than any of them closes.

  Only the groups of operators that occur are ranked: `1 + 2 * 3` becomes
  `( ( 1 ) + ( 2 * 3 ) )`.
-/

import Formulary.Token

namespace Formulary

/-- The groups of operators that bind alike, the tightest first. -/
inductive Precedence where
  | power
  | multiplicative
  | additive
  | comparison
  deriving DecidableEq, Repr

namespace Precedence

/-- Every group, the tightest first. -/
def all : List Precedence := [power, multiplicative, additive, comparison]

/-- The name of a group in listings. -/
def name : Precedence → String
  | power => "Power"
  | multiplicative => "Multiplicative"
  | additive => "Additive"
  | comparison => "Comparison"

/-- The group of an operator. -/
def ofSymbol? (symbol : String) : Option Precedence :=
  if symbol = "^" then some power
  else if symbol ∈ ["*", "/"] then some multiplicative
  else if symbol ∈ ["+", "-"] then some additive
  else if symbol ∈ ["<", "<=", "=", "==", ">=", ">"] then some comparison
  else none

end Precedence

/-! ## Signs -/

namespace Token

/-- The numeral that a sign without a left operand gets. -/
def zero : Token := ⟨.number, "0"⟩

/-- Whether a sign that follows this kind has no left operand. -/
def lacksOperand : Option Kind → Bool
  | none => true
  | some k => k = .openBracket || k = .comma || k = .operator

/-- `supplyZeros` for tokens that follow one of kind `last`. -/
def supplyZerosAfter (last : Option Kind) : List Token → List Token
  | [] => []
  | t :: ts =>
    let rest := t :: supplyZerosAfter (t.lastKind last) ts
    if t.isSign && lacksOperand last then zero :: rest else rest

/-- The tokens with a `0` before every sign without a left operand: at the start, behind
an opening bracket, a comma or an operator. -/
def supplyZeros (ts : List Token) : List Token := supplyZerosAfter none ts

/-! ## Ranks -/

/-- The group of an operator token. -/
def precedence? (t : Token) : Option Precedence :=
  if t.kind = .operator then Precedence.ofSymbol? t.text else none

end Token

/-- What a token list ranks: the groups that occur in it, tightest first, and whether
there is a comma. -/
structure Ranking where
  groups : List Precedence
  comma : Bool
  deriving DecidableEq, Repr

namespace Ranking

/-- The ranking of a token list. -/
def ofTokens (ts : List Token) : Ranking where
  groups := Precedence.all.filter fun p => ts.any fun t => t.precedence? = some p
  comma := ts.any fun t => t.kind = .comma

/-- The number of levels that the whole formula is wrapped in. -/
def levels (r : Ranking) : Nat := r.groups.length + if r.comma then 1 else 0

/-- The number of levels that a written bracket stands for: at least one, so that a call
keeps its brackets. -/
def weight (r : Ranking) : Nat := max r.levels 1

/-- The number of levels that a token closes and opens again. -/
def rank (r : Ranking) (t : Token) : Nat :=
  match t.kind with
  | .operator =>
    match Precedence.ofSymbol? t.text with
    | some p => if p ∈ r.groups then r.groups.idxOf p else 0
    | none => 0
  | .comma => r.groups.length
  | _ => 0

end Ranking

/-! ## Brackets -/

namespace Token

/-- A run of opening brackets. -/
def opening (n : Nat) : List Token := List.replicate n ⟨.openBracket, "("⟩

/-- A run of closing brackets. -/
def closing (n : Nat) : List Token := List.replicate n ⟨.closeBracket, ")"⟩

/-- What stands for a token among the brackets. -/
def bracketedBy (r : Ranking) (t : Token) : List Token :=
  match t.kind with
  | .openBracket => opening r.weight
  | .closeBracket => closing r.weight
  | _ => closing (r.rank t) ++ t :: opening (r.rank t)

/-- The tokens with every precedence written out as brackets. -/
def bracketed (ts : List Token) : List Token :=
  let r := Ranking.ofTokens ts
  opening r.levels ++ ts.flatMap (bracketedBy r) ++ closing r.levels

end Token

end Formulary
