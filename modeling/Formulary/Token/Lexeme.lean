/-
  Formulary.Token.Lexeme

  The next token at the start of a text. Which one it is depends on the characters
  that follow and on the kind of the last token that was not blank, on nothing else:

    * between quotes everything up to the next unescaped quote of the same flavour
      is one token, and so is everything between two braces;
    * a minus directly before a numeral belongs to it, unless a value ends there;
    * a name is a function only if a bracket follows it, blanks allowed.

  `lexeme last c cs` answers with the kind and the number of characters of `cs` that
  the token covers beyond `c`, so that every token covers at least one character.
-/

import Formulary.Text.Ascii
import Formulary.Text.Blank
import Formulary.Token

namespace Formulary

open Text (isBlank isDigit isLetter)

/-- The length of the longest unsigned numeral at the start: digits, and a point with
digits behind it. Zero if there is none. -/
def numeralLength (cs : List Char) : Nat :=
  let whole := (cs.takeWhile isDigit).length
  match cs.drop whole with
  | '.' :: rest =>
    let places := (rest.takeWhile isDigit).length
    if places = 0 then whole else whole + 1 + places
  | _ => whole

/-- The length of the content of a literal: up to the first `quote` that no backslash
precedes, or to the end. A backslash takes the character after it along. -/
def contentLength (quote : Char) : List Char → Nat
  | [] => 0
  | [c] => if c = quote then 0 else 1
  | c :: d :: cs =>
    if c = quote then 0
    else if c = '\\' then contentLength quote cs + 2
    else contentLength quote (d :: cs) + 1

/-- Whether an opening bracket comes next, blanks passed over. -/
def bracketNext (cs : List Char) : Bool :=
  match cs.dropWhile isBlank with
  | '(' :: _ => true
  | _ => false

/-- Kinds after which a minus is an operator even if a numeral follows. A closing quote
is not among them. -/
def minusIsOperatorAfter : Kind → Bool
  | .number | .quoted | .closeBracket | .closeBrace => true
  | _ => false

/-- The token outside quotes that starts with `c`: its kind and its length beyond `c`. -/
def plainLexeme (last : Option Kind) (c : Char) (cs : List Char) : Kind × Nat :=
  let signed := c = '-' && 0 < numeralLength cs
  if signed && last.any minusIsOperatorAfter then (.operator, 0)
  else if signed then (.number, numeralLength cs)
  else if 0 < numeralLength (c :: cs) then (.number, numeralLength (c :: cs) - 1)
  else if last = some .openBrace && c ≠ '\x7b' && c ≠ '\x7d' then
    (.reference, (cs.takeWhile fun d => d ≠ '\x7b' && d ≠ '\x7d').length)
  else if (c = '<' || c = '=' || c = '>') && cs.head? = some '=' then (.operator, 1)
  else if c ∈ ['-', '+', '*', '/', '^', '<', '=', '>'] then (.operator, 0)
  else if isLetter c && bracketNext (cs.dropWhile fun d => isLetter d || isDigit d) then
    (.function, (cs.takeWhile fun d => isLetter d || isDigit d).length)
  else if c = '(' then (.openBracket, 0)
  else if c = ')' then (.closeBracket, 0)
  else if c = '\x7b' then (.openBrace, 0)
  else if c = '\x7d' then (.closeBrace, 0)
  else if c = ',' then (.comma, 0)
  else if isBlank c then (.blank, (cs.takeWhile isBlank).length)
  else (.unknown, 0)

/-- The token that starts with `c`: its kind and its length beyond `c`. -/
def lexeme (last : Option Kind) (c : Char) (cs : List Char) : Kind × Nat :=
  if c = '"' && last ≠ some .openQuote then
    if last = some .quoted || last = some .openDoubleQuote then (.closeDoubleQuote, 0)
    else (.openDoubleQuote, 0)
  else if c = '\'' && last ≠ some .openDoubleQuote then
    if last = some .quoted || last = some .openQuote then (.closeQuote, 0)
    else (.openQuote, 0)
  else if last = some .openDoubleQuote then (.quoted, contentLength '"' (c :: cs) - 1)
  else if last = some .openQuote then (.quoted, contentLength '\'' (c :: cs) - 1)
  else plainLexeme last c cs

/-- Whether a closing quote stands directly behind an opening one: the literal between
them is empty and still gets its token. -/
def closesEmpty (last : Option Kind) (k : Kind) : Bool :=
  (last = some .openQuote && k = .closeQuote) ||
    (last = some .openDoubleQuote && k = .closeDoubleQuote)

/-- The tokens of `cs`, where `last` is the kind of the last token before it that is not
blank. -/
def tokensAfter (last : Option Kind) : List Char → List Token
  | [] => []
  | c :: cs =>
    let (k, more) := lexeme last c cs
    let t : Token := ⟨k, String.ofList (c :: cs.take more)⟩
    let rest := tokensAfter (t.lastKind last) (cs.drop more)
    if closesEmpty last k then ⟨.quoted, ""⟩ :: t :: rest else t :: rest
termination_by cs => cs.length
decreasing_by rw [List.length_drop, List.length_cons]; omega

/-- The tokens of a formula. -/
def tokenize (formula : String) : List Token := tokensAfter none formula.toList

/-! ## The tokens cover the text -/

/-- The tokens of a text cover all of it, in order. -/
theorem joined_tokensAfter (last : Option Kind) (cs : List Char) :
    Token.joined (tokensAfter last cs) = String.ofList cs := by
  have cover (c : Char) (more : Nat) (cs : List Char) :
      String.ofList (c :: cs.take more) ++ String.ofList (cs.drop more) = String.ofList (c :: cs) := by
    rw [← String.ofList_append, List.cons_append, List.take_append_drop]
  fun_induction tokensAfter last cs with
  | case1 => simp
  | case2 last c cs k more _ t rest _ ih =>
    rw [Token.joined_cons, Token.joined_cons, String.empty_append]
    exact (congrArg _ ih).trans (cover c more cs)
  | case3 last c cs k more _ t rest _ ih =>
    rw [Token.joined_cons]
    exact (congrArg _ ih).trans (cover c more cs)

theorem joined_tokenize (formula : String) : Token.joined (tokenize formula) = formula := by
  simp [tokenize, joined_tokensAfter]

end Formulary
