/-
  Formulary.Proofs.Meaning

  The value of a formula is the one that ordinary precedence gives.

  `Phrase.value` is that value by recursion on the syntax, without brackets for precedence
  and without expression trees: the operands of a phrase are computed first, `Chain.climb`
  puts the operators between them in their places, and each operator applies to the two
  texts on its sides. A sign stands between a zero and its operand; a call applies to the
  texts of its arguments in their order.

  `value_ofTokens_bracketed` says that the whole way over zeros, brackets and expression
  trees computes the same.
-/

import Formulary.Expr.Value
import Formulary.Proofs.PhraseTree

namespace Formulary

/-! ## Ordinary values -/

/-- The text of an operation on two texts. -/
def Operator.apply (o : Operator) (a b : String) : String := applyOperator o.symbol [a, b]

mutual

/-- The value of an operand. -/
def Operand.value (look : String → String) : Operand → String
  | .number s => s
  | .literal _ s => s
  | .reference n => look n
  | .emptyGroup => ""
  | .group es => String.join (es.values look)
  | .emptyCall f => applyFunction f []
  | .call f es => applyFunction f (es.values look)

/-- The values of the operands of a phrase. -/
def Phrase.values (look : String → String) : Phrase → Chain String
  | .single sign a => .signed "0" sign (a.value look) []
  | .joined sign a o e => .signed "0" sign (a.value look) ((e.values look).behind o)

/-- The values of phrases. -/
def Phrases.values (look : String → String) : Phrases → List String
  | .one e => [(e.values look).climb.eval Operator.apply]
  | .more e es => (e.values look).climb.eval Operator.apply :: es.values look

end

/-- The value of a phrase. -/
def Phrase.value (look : String → String) (e : Phrase) : String :=
  (e.values look).climb.eval Operator.apply

mutual

/-- Every call, at any depth, has an argument. -/
def Operand.CallsFilled : Operand → Prop
  | .number _ | .literal _ _ | .reference _ | .emptyGroup => True
  | .emptyCall _ => False
  | .group es | .call _ es => es.CallsFilled

def Phrase.CallsFilled : Phrase → Prop
  | .single _ a => a.CallsFilled
  | .joined _ a _ e => a.CallsFilled ∧ e.CallsFilled

def Phrases.CallsFilled : Phrases → Prop
  | .one e => e.CallsFilled
  | .more e es => e.CallsFilled ∧ es.CallsFilled

end

/-! ## Values of expressions -/

namespace Expr

theorem valuesM_eq_map (look : String → String) (es : List Expr) :
    valuesM (m := Id) look es = es.map (valueM (m := Id) look) := by
  induction es with
  | nil => rfl
  | cons e es ih =>
    rw [List.map_cons, ← ih]
    rfl

theorem value_singleton (look : String → String) (e : Expr) :
    value look [e] = valueM (m := Id) look e := by
  have hjoin : value look [e] = String.join [valueM (m := Id) look e] := rfl
  rw [hjoin, String.join_cons]
  simp

/-- The values of expressions, each computed on its own. -/
theorem map_value_singleton (look : String → String) (es : List Expr) :
    (es.map fun e => value look [e]) = valuesM (m := Id) look es := by
  rw [valuesM_eq_map]
  exact List.map_congr_left fun e _ => value_singleton look e

/-- Expressions side by side are computed one by one. -/
theorem value_eq_join_map (look : String → String) (es : List Expr) :
    value look es = String.join (es.map fun e => value look [e]) := by
  rw [map_value_singleton]
  rfl

@[simp] theorem value_number (look : String → String) (s : String) :
    value look [.number s] = s := by
  rw [value_singleton, valueM]
  rfl

@[simp] theorem value_quoted (look : String → String) (s : String) :
    value look [.quoted s] = s := by
  rw [value_singleton, valueM]
  rfl

@[simp] theorem value_reference (look : String → String) (n : String) :
    value look [.reference n] = look n := by
  rw [value_singleton, valueM]

/-- A group computes what stands in it. -/
@[simp] theorem value_group (look : String → String) (es : List Expr) :
    value look [.group es] = value look es := by
  rw [value_singleton, valueM]
  rfl

theorem value_operation (look : String → String) (s : String) (es : List Expr) :
    value look [.operation s es] = applyOperator s (es.map fun e => value look [e]) := by
  rw [value_singleton, valueM, map_value_singleton]
  rfl

theorem value_call (look : String → String) (f : String) (es : List Expr) :
    value look [.call f es] = applyFunction f (es.map fun e => value look [e]) := by
  rw [value_singleton, valueM, map_value_singleton]
  rfl

theorem value_wrapped (look : String → String) (n : Nat) (e : Expr) :
    value look [wrapped n e] = value look [e] := by
  induction n with
  | zero => rfl
  | succ n ih => rw [wrapped, value_group, ih]

theorem value_nested_nil (look : String → String) (n : Nat) : value look (nested n []) = "" := by
  induction n with
  | zero => rfl
  | succ n ih => rw [nested, value_group, ih]

end Expr

/-- Groups around the parts of a tree do not change its value. -/
theorem Binary.value_grouped (look : String → String) (rank : Operator → Nat)
    (t : Binary Expr) (n : Nat) :
    Expr.value look [t.grouped rank n] =
      (t.map fun e => Expr.value look [e]).eval Operator.apply := by
  induction t generalizing n with
  | leaf e => exact Expr.value_wrapped look n e
  | node o left right ihl ihr =>
    rw [grouped, Expr.value_wrapped, Expr.value_operation, List.map_cons, List.map_cons,
      List.map_nil, ihl, ihr]
    rfl

/-! ## Values of phrases -/

/-- The tree of a chain computes the ordinary value of the chain. -/
theorem Phrase.value_grouped {look : String → String} {rank : Operator → Nat} {c : Chain Expr}
    {d : Chain String} (h : (c.map fun e => Expr.value look [e]) = d) (n : Nat) :
    Expr.value look [c.climb.grouped rank n] = d.climb.eval Operator.apply := by
  rw [Binary.value_grouped, ← Chain.climb_map, h]

mutual

/-- Trees have the ordinary values of what they are the trees of. -/
theorem Operand.value_tree (look : String → String) (r : Ranking) : ∀ a : Operand,
    a.CallsFilled → Expr.value look [a.tree r] = a.value look
  | .number s, _ => Expr.value_number look s
  | .literal _ s, _ => Expr.value_quoted look s
  | .reference n, _ => Expr.value_reference look n
  | .emptyGroup, _ => by
    -- The levels left over by the bracket add nothing to the text.
    rw [Operand.tree, Expr.value_group, Expr.value_nested_nil]
    rfl
  | .group es, h => by
    have hes := es.values_trees look r h
    rw [Operand.tree, Expr.value_group, Expr.value_eq_join_map, hes]
    rfl
  | .call f es, h => by
    have hes := es.values_trees look r h
    rw [Operand.tree, Expr.value_call, hes]
    rfl

theorem Phrase.values_trees (look : String → String) (r : Ranking) : ∀ e : Phrase,
    e.CallsFilled → ((e.trees r).map fun e => Expr.value look [e]) = e.values look
  | .single sign a, h => by
    -- A sign has a zero on its left in the tree and in the ordinary value alike.
    have ha := a.value_tree look r h
    rw [Phrase.trees, Chain.map_signed, ha, Expr.value_number]
    rfl
  | .joined sign a o e, h => by
    have ha := a.value_tree look r h.1
    have he := e.values_trees look r h.2
    rw [Phrase.trees, Chain.map_signed, ha, Expr.value_number, Phrase.values, ← he]
    rfl

theorem Phrases.values_trees (look : String → String) (r : Ranking) : ∀ es : Phrases,
    es.CallsFilled → ((es.trees r).map fun e => Expr.value look [e]) = es.values look
  | .one e, h => by
    have he := e.values_trees look r h
    rw [Phrases.trees, List.map_cons, List.map_nil, Phrase.value_grouped he]
    rfl
  | .more e es, h => by
    have he := e.values_trees look r h.1
    have hes := es.values_trees look r h.2
    rw [Phrases.trees, List.map_cons, Phrase.value_grouped he, hes]
    rfl

end

/-- **Precedence.** Brackets that stand for precedence compute what precedence computes:
    for every phrase whose calls have arguments, of any size and nesting, with any blanks
    between its tokens and for every look-up. -/
theorem value_ofTokens_bracketed (look : String → String) {e : Phrase} (h : e.CallsFilled)
    {ts : List Token} (hts : Token.significant ts = e.tokens false) :
    Expr.value look (Expr.ofTokens (Token.bracketed (Token.supplyZeros ts))) = e.value look := by
  rw [e.ofTokens_bracketed hts rfl]
  exact Phrase.value_grouped (e.values_trees look _ h) _

/-- A leading sign, a bracket, a call, a reference and three groups of operators. -/
theorem value_sign_call_reference :
    ∃ e : Phrase, e.CallsFilled ∧
      Token.significant (tokenize "- 2 * (\x7bx\x7d + max(1, 3 ^ 2))") = e.tokens false ∧
      e.value (fun _ => "5") = "-28" ∧
      Expr.value (fun _ => "5") (Expr.ofFormula "- 2 * (\x7bx\x7d + max(1, 3 ^ 2))") = "-28" := by
  let e : Phrase :=
    .joined (some .minus) (.number "2") .times (.single none (.group (.one
      (.joined none (.reference "x") .plus (.single none (.call "max"
        (.more (.single none (.number "1"))
          (.one (.joined none (.number "3") .power (.single none (.number "2")))))))))))
  have hfilled : e.CallsFilled := by
    simp [e, Phrase.CallsFilled, Operand.CallsFilled, Phrases.CallsFilled]
  have htokens : Token.significant (tokenize "- 2 * (\x7bx\x7d + max(1, 3 ^ 2))") =
      e.tokens false := by cbv
  have hvalue : e.value (fun _ => "5") = "-28" := by decide +kernel
  exact ⟨e, hfilled, htokens, hvalue, (value_ofTokens_bracketed _ hfilled htokens).trans hvalue⟩

end Formulary
