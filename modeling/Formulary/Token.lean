/-
  Formulary.Token

  The tokens of a formula. A token is a kind and the text it covers, so a formula is
  the concatenation of its tokens (`joined`).

  Kinds that can end a value (`endsValue`) and kinds that can start one
  (`startsValue`) decide where an operator, a sign or a new value may stand. Blank
  space is a token too, but it is looked through: `lastKind` keeps the kind of the
  last token that is not blank.
-/

namespace Formulary

/-- What a token is. -/
inductive Kind where
  /-- A decimal numeral, with or without a minus sign. -/
  | number
  /-- The content of a quoted literal, escapes as written. -/
  | quoted
  | blank
  | operator
  | openBracket
  | closeBracket
  | openBrace
  | closeBrace
  /-- The name between two braces. -/
  | reference
  /-- A name with an opening bracket behind it. -/
  | function
  | comma
  | openQuote
  | closeQuote
  | openDoubleQuote
  | closeDoubleQuote
  /-- A bracketed part of an expression tree; no text has a token of this kind. -/
  | group
  /-- A character that starts no token. -/
  | unknown
  deriving DecidableEq, Repr

namespace Kind

/-- Every kind, in the order of the listing. -/
def all : List Kind :=
  [number, quoted, blank, operator, openBracket, closeBracket, openBrace, closeBrace,
    reference, function, comma, openQuote, closeQuote, openDoubleQuote, closeDoubleQuote,
    group, unknown]

/-- The name of a kind in listings. -/
def name : Kind → String
  | number => "Number"
  | quoted => "String"
  | blank => "Whitespace"
  | operator => "Operator"
  | openBracket => "BracketStart"
  | closeBracket => "BracketEnd"
  | openBrace => "ReferenceBracketStart"
  | closeBrace => "ReferenceBracketEnd"
  | reference => "ReferenceName"
  | function => "FunctionName"
  | comma => "Comma"
  | openQuote => "QuoteStart"
  | closeQuote => "QuoteEnd"
  | openDoubleQuote => "DoubleQuoteStart"
  | closeDoubleQuote => "DoubleQuoteEnd"
  | group => "Group"
  | unknown => "Error"

/-- The kind with the given name. -/
def ofName? (s : String) : Option Kind := all.find? (·.name == s)

/-- Kinds that end a value, so that an operator may follow. -/
def endsValue : Kind → Bool
  | number | closeBracket | closeBrace | closeQuote | closeDoubleQuote => true
  | _ => false

/-- Kinds that start a value, so that a sign may stand before them. -/
def startsValue : Kind → Bool
  | number | openBracket | openBrace | function | openQuote | openDoubleQuote => true
  | _ => false

theorem mem_all (k : Kind) : k ∈ all := by cases k <;> decide

theorem ofName?_name (k : Kind) : ofName? k.name = some k := by cases k <;> decide

end Kind

/-- A token: its kind and the text it covers. -/
structure Token where
  kind : Kind
  text : String
  deriving DecidableEq, Repr

namespace Token

/-- Blank space between two other tokens. -/
def isBlank (t : Token) : Bool := t.kind = .blank

/-- A plus or a minus, which may be a sign as well as an operator. -/
def isSign (t : Token) : Bool := t.kind = .operator && (t.text == "+" || t.text == "-")

/-- The kind of the last token that is not blank, after one more token. -/
def lastKind (last : Option Kind) (t : Token) : Option Kind :=
  if t.isBlank then last else some t.kind

/-- The text that the tokens cover. -/
def joined (ts : List Token) : String := String.join (ts.map text)

@[simp] theorem joined_nil : joined [] = "" := by simp [joined]

@[simp] theorem joined_cons (t : Token) (ts : List Token) :
    joined (t :: ts) = t.text ++ joined ts := by
  simp [joined, String.join_cons]

theorem joined_append (ts us : List Token) : joined (ts ++ us) = joined ts ++ joined us := by
  induction ts with
  | nil => simp
  | cons t ts ih => simp [ih, String.append_assoc]

end Token

end Formulary
