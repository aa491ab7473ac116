/-
  Formulary.Expr

  Expression trees and how tokens grow into one.

  There is no table of operators here: `Token.bracketed` has written every precedence
  out, so the builder reads from left to right and knows four moves. A value joins the
  operation that waits for its right operand, or stands alone; an operator takes the
  last finished item as its left operand; an opening bracket starts a group, or a call
  if a function name stands before it; a closing bracket finishes what was opened last.
  What is still open at the end is finished there, and a bracket that closes nothing is
  passed over.
-/

import Formulary.Token.Lexeme
import Formulary.Precedence

namespace Formulary

/-- An expression. -/
inductive Expr where
  /-- A numeral as written. -/
  | number (text : String)
  /-- The content of a quoted literal, escapes as written. -/
  | quoted (text : String)
  /-- The value that is known under a name. -/
  | reference (name : String)
  /-- An operator and the operands it found, two in a well-formed formula. -/
  | operation (symbol : String) (operands : List Expr)
  /-- A function and its arguments. -/
  | call (function : String) (arguments : List Expr)
  /-- A bracketed part. -/
  | group (items : List Expr)
  deriving Repr, Inhabited

namespace Expr

/-- The kind of an expression in listings. -/
def kind : Expr → Kind
  | number _ => .number
  | quoted _ => .quoted
  | reference _ => .reference
  | operation _ _ => .operator
  | call _ _ => .function
  | group _ => .group

/-- The text of an expression's own token; a group has none. -/
def text : Expr → String
  | number s | quoted s | reference s | operation s _ | call s _ => s
  | group _ => ""

/-- The expressions directly below. -/
def parts : Expr → List Expr
  | operation _ es | call _ es | group es => es
  | _ => []

/-- The expression with the given kind, text and parts, to read a listed tree back. A kind that no
expression has stands for nothing, like an empty group. -/
def ofParts (k : Kind) (s : String) (es : List Expr) : Expr :=
  match k with
  | .number => number s
  | .quoted => quoted s
  | .reference => reference s
  | .operator => operation s es
  | .function => call s es
  | .group => group es
  | _ => group []

end Expr

/-! ## Building -/

/-- The items of a bracketed part while it is read, the latest first. -/
abbrev Items := List Expr

namespace Items

/-- A finished value: the right operand of an operation that lacks one, or an item of its
own. -/
def attach (e : Expr) : Items → Items
  | .operation s es :: done =>
    if es.length < 2 then .operation s (es ++ [e]) :: done else e :: .operation s es :: done
  | done => e :: done

/-- An operator: the last item becomes its left operand. -/
def operator (s : String) : Items → Items
  | [] => [.operation s []]
  | left :: done => .operation s [left] :: done

end Items

/-- What an opening bracket has opened: a call of the named function, or a group. -/
abbrev Opened := Option String

/-- The expression that a bracketed part becomes. -/
def Opened.close (o : Opened) (items : Items) : Expr :=
  match o with
  | some name => .call name items.reverse
  | none => .group items.reverse

/-- The state of the builder: the items of the innermost open part, and for every open
part, innermost first, what opened it and the items before it. -/
structure Builder where
  items : Items
  outer : List (Opened × Items)

namespace Builder

/-- Nothing read yet. -/
def empty : Builder := ⟨[], []⟩

/-- A bracket opens. -/
def enter (o : Opened) (b : Builder) : Builder := ⟨[], (o, b.items) :: b.outer⟩

/-- A bracket closes. -/
def leave (b : Builder) : Builder :=
  match b.outer with
  | [] => b
  | (o, before) :: outer => ⟨before.attach (o.close b.items), outer⟩

/-- A token that opens no call. -/
def take (b : Builder) (t : Token) : Builder :=
  match t.kind with
  | .number => { b with items := b.items.attach (.number t.text) }
  | .quoted => { b with items := b.items.attach (.quoted t.text) }
  | .reference => { b with items := b.items.attach (.reference t.text) }
  | .function => { b with items := b.items.attach (.call t.text []) }
  | .operator => { b with items := b.items.operator t.text }
  | .openBracket => b.enter none
  | .closeBracket => b.leave
  | _ => b

/-- Tokens from left to right; a function name with a bracket behind it opens a call. -/
def read (b : Builder) : List Token → Builder
  | [] => b
  | [t] => b.take t
  | t :: u :: ts =>
    if t.kind = .function && u.kind = .openBracket then (b.enter (some t.text)).read ts
    else (b.take t).read (u :: ts)

/-- The items once every part that is still open is finished. -/
def finish (items : Items) : List (Opened × Items) → List Expr
  | [] => items.reverse
  | (o, before) :: outer => finish (before.attach (o.close items)) outer

end Builder

namespace Token

/-- Kinds that matter to the tree: values, operators, functions and brackets. -/
def matters (t : Token) : Bool :=
  match t.kind with
  | .quoted | .number | .reference | .operator | .function | .openBracket | .closeBracket => true
  | _ => false

end Token

namespace Expr

/-- The expressions that a token list is read as. -/
def ofTokens (ts : List Token) : List Expr :=
  let b := Builder.empty.read (ts.filter Token.matters)
  Builder.finish b.items b.outer

/-- The expressions that a formula is read as, one if the formula is well formed. -/
def ofFormula (formula : String) : List Expr :=
  ofTokens (Token.bracketed (Token.supplyZeros (tokenize formula)))

end Expr

end Formulary
