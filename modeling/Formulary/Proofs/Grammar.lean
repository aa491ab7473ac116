/-
  Formulary.Proofs.Grammar

  The grammar of formulas as syntax trees, blanks left out:

    phrase   ::=  [sign] operand { operator [sign] operand }
    operand  ::=  numeral  |  quoted text  |  { name }
               |  ( [phrases] )  |  function ( [phrases] )
    phrases  ::=  phrase { , phrase }

  `tokens` writes a syntax tree down. With `zeros` it also writes the `0` that a sign gets
  in front of it. `Admissible` adds what a grammar does not see: that functions are known,
  that references are allowed, and that a bracket holds more than one phrase only inside
  a call.
-/

import Formulary.Catalogue
import Formulary.Proofs.Climbing

namespace Formulary

/-! ## Tokens of the grammar -/

namespace Token

def leftBracket : Token := ⟨.openBracket, "("⟩
def rightBracket : Token := ⟨.closeBracket, ")"⟩
def leftBrace : Token := ⟨.openBrace, "\x7b"⟩
def rightBrace : Token := ⟨.closeBrace, "\x7d"⟩
def separator : Token := ⟨.comma, ","⟩

/-- The tokens that are not blank. -/
def significant (ts : List Token) : List Token := ts.filter fun t => !t.isBlank

theorem significant_cons (t : Token) (ts : List Token) :
    significant (t :: ts) = if t.isBlank then significant ts else t :: significant ts := by
  cases h : t.isBlank <;> simp [significant, h]

end Token

/-- The two flavours of quotes. -/
inductive Quote where
  | single
  | double
  deriving DecidableEq, Repr

namespace Quote

/-- The quote at the start of a literal. -/
def opening : Quote → Token
  | single => ⟨.openQuote, "'"⟩
  | double => ⟨.openDoubleQuote, "\""⟩

/-- The quote at the end of a literal. -/
def closing : Quote → Token
  | single => ⟨.closeQuote, "'"⟩
  | double => ⟨.closeDoubleQuote, "\""⟩

end Quote

/-- The token of an operator. -/
def Operator.token (o : Operator) : Token := ⟨.operator, o.symbol⟩

/-! ## Syntax trees -/

mutual

/-- What an operator applies to. -/
inductive Operand where
  | number (text : String)
  | literal (quote : Quote) (text : String)
  | reference (name : String)
  | emptyGroup
  | group (inner : Phrases)
  | emptyCall (function : String)
  | call (function : String) (arguments : Phrases)

/-- Operands joined by operators, each with or without a sign in front of it. -/
inductive Phrase where
  | single (sign : Option Sign) (operand : Operand)
  | joined (sign : Option Sign) (operand : Operand) (operator : Operator) (rest : Phrase)

/-- Phrases with commas between them. -/
inductive Phrases where
  | one (phrase : Phrase)
  | more (phrase : Phrase) (rest : Phrases)

end

/-- The tokens of a sign, behind a `0` if `zeros` holds. -/
def Sign.tokens (zeros : Bool) : Option Sign → List Token
  | none => []
  | some s => (if zeros then [Token.zero] else []) ++ [(Operator.ofSign s).token]

mutual

/-- A syntax tree as tokens. -/
def Operand.tokens (zeros : Bool) : Operand → List Token
  | .number s => [⟨.number, s⟩]
  | .literal q s => [q.opening, ⟨.quoted, s⟩, q.closing]
  | .reference n => [.leftBrace, ⟨.reference, n⟩, .rightBrace]
  | .emptyGroup => [.leftBracket, .rightBracket]
  | .group es => .leftBracket :: (es.tokens zeros ++ [.rightBracket])
  | .emptyCall f => [⟨.function, f⟩, .leftBracket, .rightBracket]
  | .call f es => ⟨.function, f⟩ :: .leftBracket :: (es.tokens zeros ++ [.rightBracket])

def Phrase.tokens (zeros : Bool) : Phrase → List Token
  | .single sign a => Sign.tokens zeros sign ++ a.tokens zeros
  | .joined sign a o e => Sign.tokens zeros sign ++ (a.tokens zeros ++ o.token :: e.tokens zeros)

def Phrases.tokens (zeros : Bool) : Phrases → List Token
  | .one e => e.tokens zeros
  | .more e es => e.tokens zeros ++ .separator :: es.tokens zeros

end

/-! ## Conditions -/

/-- Whether a reference to this name is allowed. Without a list every name is; upper and
    lower case are alike. -/
def AllowedName (allowed : Option (List String)) (name : String) : Prop :=
  ∀ names, allowed = some names → Text.lower name ∈ names.map Text.lower

/-- Exactly one phrase. -/
def Phrases.IsOne : Phrases → Prop
  | .one _ => True
  | .more _ _ => False

mutual

/-- An operand whose functions are known, whose references are allowed and which has
    commas in a bracket only inside a call; `inCall` tells whether it stands in one. -/
def Operand.Admissible (allowed : Option (List String)) (inCall : Bool) : Operand → Prop
  | .number _ | .literal _ _ | .emptyGroup => True
  | .reference n => AllowedName allowed n
  | .group es => (inCall = false → es.IsOne) ∧ es.Admissible allowed inCall
  | .emptyCall f => isFunction f
  | .call f es => isFunction f ∧ es.Admissible allowed true

def Phrase.Admissible (allowed : Option (List String)) (inCall : Bool) : Phrase → Prop
  | .single _ a => a.Admissible allowed inCall
  | .joined _ a _ e => a.Admissible allowed inCall ∧ e.Admissible allowed inCall

def Phrases.Admissible (allowed : Option (List String)) (inCall : Bool) : Phrases → Prop
  | .one e => e.Admissible allowed inCall
  | .more e es => e.Admissible allowed inCall ∧ es.Admissible allowed inCall

end

/-! ## The ends of a phrase -/

/-- The kind of the last token. -/
def Operand.endKind : Operand → Kind
  | .number _ => .number
  | .literal q _ => q.closing.kind
  | .reference _ => .closeBrace
  | .emptyGroup | .group _ | .emptyCall _ | .call _ _ => .closeBracket

def Phrase.endKind : Phrase → Kind
  | .single _ a => a.endKind
  | .joined _ _ _ e => e.endKind

def Phrases.endKind : Phrases → Kind
  | .one e => e.endKind
  | .more _ es => es.endKind

theorem Operand.endsValue_endKind (a : Operand) : a.endKind.endsValue = true := by
  cases a with
  | literal q _ => cases q <;> rfl
  | _ => rfl

theorem Phrase.endsValue_endKind : ∀ e : Phrase, e.endKind.endsValue = true
  | .single _ a => a.endsValue_endKind
  | .joined _ _ _ e => e.endsValue_endKind

theorem Phrases.endsValue_endKind : ∀ es : Phrases, es.endKind.endsValue = true
  | .one e => e.endsValue_endKind
  | .more _ es => es.endsValue_endKind

/-- An operand starts with a token that starts a value. -/
theorem Operand.exists_tokens (zeros : Bool) (a : Operand) :
    ∃ t ts, a.tokens zeros = t :: ts ∧ t.kind.startsValue = true := by
  cases a with
  | literal q s => cases q <;> exact ⟨_, _, rfl, rfl⟩
  | _ => exact ⟨_, _, rfl, rfl⟩

end Formulary
