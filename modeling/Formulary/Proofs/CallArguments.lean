/-
  Formulary.Proofs.CallArguments

  How many arguments the calls of a formula get.

  `Token.writtenCalls` counts the arguments that are written: none if nothing but blanks
  stands between the brackets of a call, and else one more than the commas directly
  between them. `Expr.calls` counts what the calls of the tree have.

  The two agree except for one case, which `calls_ofFormula` makes exact: where a bracket
  stands for two levels or more, because two groups of operators, or one and a comma, occur
  anywhere in the formula, a call without arguments gets one. The second level of its
  bracket, with nothing in it, is read as an empty group.
-/

import Formulary.Proofs.TreeNodes

namespace Formulary

open Token (significant)

/-! ## Counting arguments -/

namespace Token

/-- The commas up to the end of a bracket, those inside further brackets left out; `depth`
    is the number of further brackets that are open. -/
def commasInside : Nat → List Token → Nat
  | _, [] => 0
  | depth, t :: ts =>
    match t.kind, depth with
    | .openBracket, _ => commasInside (depth + 1) ts
    | .closeBracket, 0 => 0
    | .closeBracket, d + 1 => commasInside d ts
    | .comma, 0 => commasInside 0 ts + 1
    | _, _ => commasInside depth ts

/-- The arguments of a call, given the tokens behind its opening bracket. -/
def writtenArguments (ts : List Token) : Nat :=
  if ts.head?.map kind = some .closeBracket then 0 else commasInside 0 ts + 1

/-- The calls in tokens that are not blank, each with the number of its arguments. -/
def writtenCalls : List Token → List (String × Nat)
  | [] => []
  | t :: ts =>
    if t.kind = .function then (t.text, writtenArguments ts.tail) :: writtenCalls ts
    else writtenCalls ts

end Token

namespace Expr

/-- A call and the number of its arguments. -/
def call? : Expr → Option (String × Nat)
  | call f es => some (f, es.length)
  | _ => none

/-- The calls in expressions, each with the number of its arguments. -/
def calls (es : List Expr) : List (String × Nat) := (nodesOf es).filterMap call?

end Expr

open Token (commasInside writtenArguments writtenCalls)

/-! ## Calls as written -/

def Phrases.count : Phrases → Nat
  | .one _ => 1
  | .more _ es => es.count + 1

mutual

/-- The calls in an operand, each with the number of its arguments. -/
def Operand.calls : Operand → List (String × Nat)
  | .number _ | .literal _ _ | .reference _ | .emptyGroup => []
  | .group es => es.calls
  | .emptyCall f => [(f, 0)]
  | .call f es => (f, es.count) :: es.calls

def Phrase.calls : Phrase → List (String × Nat)
  | .single _ a => a.calls
  | .joined _ a _ e => a.calls ++ e.calls

def Phrases.calls : Phrases → List (String × Nat)
  | .one e => e.calls
  | .more e es => e.calls ++ es.calls

end

theorem commasInside_sign (depth : Nat) (sign : Option Sign) (ts : List Token) :
    commasInside depth (Sign.tokens false sign ++ ts) = commasInside depth ts := by
  cases sign <;> rfl

mutual

/-- An operand has its commas inside its own brackets. -/
theorem Operand.commasInside_tokens (depth : Nat) : ∀ (a : Operand) (rest : List Token),
    commasInside depth (a.tokens false ++ rest) = commasInside depth rest
  | .number s, _ => rfl
  | .literal q s, _ => by cases q <;> rfl
  | .reference n, _ => rfl
  | .emptyGroup, _ => rfl
  | .emptyCall f, _ => rfl
  | .group es, rest => by
    have hes := es.commasInside_tokens depth (.rightBracket :: rest)
    rw [Operand.tokens, List.cons_append, List.append_assoc]
    exact hes
  | .call f es, rest => by
    -- The name and the bracket are passed over, and the bracket raises the depth.
    have hes := es.commasInside_tokens depth (.rightBracket :: rest)
    rw [Operand.tokens, List.cons_append, List.cons_append, List.append_assoc]
    exact hes

theorem Phrase.commasInside_tokens (depth : Nat) : ∀ (e : Phrase) (rest : List Token),
    commasInside depth (e.tokens false ++ rest) = commasInside depth rest
  | .single sign a, rest => by
    rw [Phrase.tokens, List.append_assoc, commasInside_sign, a.commasInside_tokens]
  | .joined sign a o e, rest => by
    have he := e.commasInside_tokens depth rest
    rw [Phrase.tokens, List.append_assoc, commasInside_sign, List.append_assoc,
      a.commasInside_tokens, List.cons_append]
    exact he

/-- Inside a further bracket the commas between phrases do not count. -/
theorem Phrases.commasInside_tokens (depth : Nat) : ∀ (es : Phrases) (rest : List Token),
    commasInside (depth + 1) (es.tokens false ++ rest) = commasInside (depth + 1) rest
  | .one e, rest => e.commasInside_tokens (depth + 1) rest
  | .more e es, rest => by
    have hes := es.commasInside_tokens depth rest
    rw [Phrases.tokens, List.append_assoc, e.commasInside_tokens, List.cons_append]
    exact hes

end

/-- The commas between phrases are one less than the phrases. -/
theorem Phrases.commasInside_rightBracket (rest : List Token) : ∀ es : Phrases,
    commasInside 0 (es.tokens false ++ .rightBracket :: rest) + 1 = es.count
  | .one e => by
    rw [tokens, e.commasInside_tokens, count]
    rfl
  | .more e es => by
    rw [tokens, List.append_assoc, e.commasInside_tokens, List.cons_append, count,
      ← es.commasInside_rightBracket rest]
    rfl

/-- Phrases do not start with a closing bracket. -/
theorem Phrases.exists_tokens : ∀ es : Phrases,
    ∃ t ts, es.tokens false = t :: ts ∧ t.kind ≠ .closeBracket := by
  -- A phrase starts with its sign, or else with the first token of its operand.
  have hoperand (sign : Option Sign) (a : Operand) :
      ∃ t ts, Sign.tokens false sign ++ a.tokens false = t :: ts ∧ t.kind ≠ .closeBracket := by
    obtain ⟨t, ts, hts, hstart⟩ := a.exists_tokens false
    cases sign with
    | none =>
      refine ⟨t, ts, hts, ?_⟩
      intro hk
      rw [hk] at hstart
      exact nomatch hstart
    | some s => exact ⟨_, _, rfl, by simp [Operator.token]⟩
  have hphrase : ∀ e : Phrase, ∃ t ts, e.tokens false = t :: ts ∧ t.kind ≠ .closeBracket := by
    intro e
    cases e with
    | single sign a => exact hoperand sign a
    | joined sign a o e =>
      obtain ⟨t, ts, hts, hk⟩ := hoperand sign a
      exact ⟨t, _, by rw [Phrase.tokens, ← List.append_assoc, hts, List.cons_append], hk⟩
  intro es
  cases es with
  | one e => exact hphrase e
  | more e es =>
    obtain ⟨t, ts, hts, hk⟩ := hphrase e
    exact ⟨t, _, by rw [tokens, hts, List.cons_append], hk⟩

/-- The arguments of a call are counted as they are written. -/
theorem Phrases.writtenArguments_tokens (es : Phrases) (rest : List Token) :
    writtenArguments (es.tokens false ++ .rightBracket :: rest) = es.count := by
  obtain ⟨t, ts, hts, hk⟩ := es.exists_tokens
  have hhead : (es.tokens false ++ .rightBracket :: rest).head?.map Token.kind ≠
      some .closeBracket := by
    rw [hts]
    simpa using hk
  rw [writtenArguments, if_neg hhead, es.commasInside_rightBracket]

theorem writtenCalls_function (f : String) (ts : List Token) :
    writtenCalls (⟨.function, f⟩ :: .leftBracket :: ts) =
      (f, writtenArguments ts) :: writtenCalls ts := rfl

theorem writtenCalls_sign (sign : Option Sign) (ts : List Token) :
    writtenCalls (Sign.tokens false sign ++ ts) = writtenCalls ts := by
  cases sign <;> rfl

mutual

/-- The calls in the tokens of an operand. -/
theorem Operand.writtenCalls_tokens : ∀ (a : Operand) (rest : List Token),
    writtenCalls (a.tokens false ++ rest) = a.calls ++ writtenCalls rest
  | .number s, _ => rfl
  | .literal q s, _ => by cases q <;> rfl
  | .reference n, _ => rfl
  | .emptyGroup, _ => rfl
  | .emptyCall f, _ => rfl
  | .group es, rest => by
    have hes := es.writtenCalls_tokens (.rightBracket :: rest)
    rw [Operand.tokens, List.cons_append, List.append_assoc]
    exact hes
  | .call f es, rest => by
    -- The count looks ahead to the closing bracket, which the tokens of the phrases end at.
    have hcount := es.writtenArguments_tokens rest
    have hes := es.writtenCalls_tokens (.rightBracket :: rest)
    rw [Operand.tokens, List.cons_append, List.cons_append, List.append_assoc,
      List.singleton_append, writtenCalls_function, hcount, Operand.calls, List.cons_append]
    exact congrArg _ hes

theorem Phrase.writtenCalls_tokens : ∀ (e : Phrase) (rest : List Token),
    writtenCalls (e.tokens false ++ rest) = e.calls ++ writtenCalls rest
  | .single sign a, rest => by
    rw [Phrase.tokens, List.append_assoc, writtenCalls_sign, a.writtenCalls_tokens, Phrase.calls]
  | .joined sign a o e, rest => by
    have he : writtenCalls (o.token :: (e.tokens false ++ rest)) = e.calls ++ writtenCalls rest :=
      e.writtenCalls_tokens rest
    rw [Phrase.tokens, List.append_assoc, writtenCalls_sign, List.append_assoc,
      a.writtenCalls_tokens, List.cons_append, he, Phrase.calls, List.append_assoc]

theorem Phrases.writtenCalls_tokens : ∀ (es : Phrases) (rest : List Token),
    writtenCalls (es.tokens false ++ rest) = es.calls ++ writtenCalls rest
  | .one e, rest => e.writtenCalls_tokens rest
  | .more e es, rest => by
    have hes : writtenCalls (.separator :: (es.tokens false ++ rest)) =
        es.calls ++ writtenCalls rest := es.writtenCalls_tokens rest
    rw [Phrases.tokens, List.append_assoc, e.writtenCalls_tokens, List.cons_append, hes,
      Phrases.calls, List.append_assoc]

end

/-! ## Calls of the tree -/

namespace Expr

theorem calls_cons (e : Expr) (es : List Expr) : calls (e :: es) = calls [e] ++ calls es := by
  simp only [calls, nodesOf_singleton]
  simp only [nodesOf, List.filterMap_append]

theorem calls_group (es : List Expr) : calls [group es] = calls es := by
  rw [calls, nodesOf_singleton, nodes]
  exact List.filterMap_cons_none rfl

theorem calls_call (f : String) (es : List Expr) :
    calls [call f es] = (f, es.length) :: calls es := by
  rw [calls, nodesOf_singleton, nodes]
  exact List.filterMap_cons_some rfl

theorem calls_operation (s : String) (left right : Expr) :
    calls [operation s [left, right]] = calls [left] ++ calls [right] := by
  rw [← calls_cons, calls, nodesOf_singleton, nodes]
  exact List.filterMap_cons_none rfl

/-- Groups around expressions have no calls of their own. -/
theorem calls_nested (k : Nat) (es : List Expr) : calls (nested k es) = calls es := by
  induction k with
  | zero => rfl
  | succ k ih => rw [nested, calls_group, ih]

theorem calls_wrapped (k : Nat) (e : Expr) : calls [wrapped k e] = calls [e] := by
  rw [← nested_singleton, calls_nested]

theorem length_nested_nil (k : Nat) : (nested k []).length = if k = 0 then 0 else 1 := by
  cases k <;> rfl

end Expr

/-- The calls of a chain are those of its operands. -/
theorem Chain.calls_grouped (rank : Operator → Nat) (c : Chain Expr) (k : Nat) :
    Expr.calls [c.climb.grouped rank k] = c.operands.flatMap fun e => Expr.calls [e] := by
  induction c using Chain.joinInduction generalizing k with
  | single e =>
    have hone : (⟨e, []⟩ : Chain Expr).operands = [e] := rfl
    rw [hone, List.flatMap_singleton]
    exact Expr.calls_wrapped k e
  | join c o d hl hr ihc ihd =>
    rw [climb_join hl hr, Binary.grouped, Expr.calls_wrapped, Expr.calls_operation, ihc, ihd,
      operands_join, List.flatMap_append]

/-! ## Arguments that are passed -/

/-- The number of arguments that a call gets under a ranking, given how many are written. -/
def Ranking.passedArguments (r : Ranking) (n : Nat) : Nat := if n = 0 ∧ 2 ≤ r.levels then 1 else n

/-- A call as it gets its arguments, given the call as it is written. -/
def Ranking.passed (r : Ranking) (c : String × Nat) : String × Nat := (c.1, r.passedArguments c.2)

theorem Ranking.passed_zero (r : Ranking) (f : String) :
    r.passed (f, 0) = (f, (Expr.nested (r.weight - 1) []).length) := by
  rw [passed, passedArguments, Expr.length_nested_nil, weight]
  congr 1
  -- The weight is the number of levels, but never zero.
  split <;> split <;> omega

theorem Ranking.passed_count (r : Ranking) (f : String) (es : Phrases) :
    r.passed (f, es.count) = (f, es.count) := by
  have hpos : es.count ≠ 0 := by cases es <;> simp [Phrases.count]
  rw [passed, passedArguments, if_neg fun h => hpos h.1]

theorem Phrases.length_trees (r : Ranking) : ∀ es : Phrases, (es.trees r).length = es.count
  | .one e => rfl
  | .more e es => by rw [trees, List.length_cons, es.length_trees r, count]

theorem Chain.calls_signed (sign : Option Sign) (e : Expr) (rest : List (Operator × Expr)) :
    ((signed (.number "0") sign e rest).operands.flatMap fun e => Expr.calls [e]) =
      Expr.calls [e] ++ (rest.map Prod.snd).flatMap fun e => Expr.calls [e] := by
  cases sign <;> rfl

mutual

/-- The calls in the tree of an operand. -/
theorem Operand.calls_tree (r : Ranking) : ∀ a : Operand,
    Expr.calls [a.tree r] = a.calls.map r.passed
  | .number s => rfl
  | .literal _ s => rfl
  | .reference n => rfl
  | .emptyGroup => by
    rw [Operand.tree, Expr.calls_group, Expr.calls_nested]
    rfl
  | .group es => by
    rw [Operand.tree, Expr.calls_group, es.calls_trees r]
    rfl
  | .emptyCall f => by
    -- The levels inside the outermost bracket become its argument, if there are any.
    rw [Operand.tree, Expr.calls_call, Expr.calls_nested, ← r.passed_zero]
    rfl
  | .call f es => by
    rw [Operand.tree, Expr.calls_call, es.calls_trees r, es.length_trees r, ← r.passed_count]
    rfl

/-- The calls in the trees of the operands of a phrase. -/
theorem Phrase.calls_trees (r : Ranking) : ∀ e : Phrase,
    ((e.trees r).operands.flatMap fun e => Expr.calls [e]) = e.calls.map r.passed
  | .single sign a => by
    have ha := a.calls_tree r
    rw [Phrase.trees, Chain.calls_signed, ha, Phrase.calls]
    exact List.append_nil _
  | .joined sign a o e => by
    have ha := a.calls_tree r
    have he := e.calls_trees r
    rw [Phrase.trees, Chain.calls_signed, ha, Phrase.calls, List.map_append, ← he]
    rfl

theorem Phrases.calls_trees (r : Ranking) : ∀ es : Phrases,
    Expr.calls (es.trees r) = es.calls.map r.passed
  | .one e => by
    rw [Phrases.trees, Chain.calls_grouped, e.calls_trees r, Phrases.calls]
  | .more e es => by
    rw [Phrases.trees, Expr.calls_cons, Chain.calls_grouped, e.calls_trees r, es.calls_trees r,
      Phrases.calls, List.map_append]

end

/-- **Arguments.** In a formula without faults every call of the tree has as many arguments as
    are written, in the order of the text, but for calls without arguments: where brackets stand
    for two levels or more they get one. -/
theorem calls_ofFormula {allowed : Option (List String)} {formula : String}
    (h : Fault.check allowed (tokenize formula) = []) :
    Expr.calls (Expr.ofFormula formula) =
      (writtenCalls (significant (tokenize formula))).map
        (Ranking.ofTokens (tokenize formula)).passed := by
  rcases exists_phrase_of_check h with hnil | ⟨e, htoks, -⟩
  · rw [ofFormula_of_blank hnil, hnil]
    rfl
  · -- The ranking is taken behind the zeros, but it is that of the tokens as written.
    have hr : Ranking.ofTokens (e.tokens true) = Ranking.ofTokens (tokenize formula) := by
      rw [← e.supplyZeros_tokens, Token.ranking_supplyZeros, ← htoks, Token.ranking_significant]
    have hwritten : writtenCalls (e.tokens false) = e.calls := by
      have := e.writtenCalls_tokens []
      rwa [List.append_nil, writtenCalls, List.append_nil] at this
    rw [Expr.ofFormula, e.ofTokens_bracketed htoks hr, htoks, hwritten, Phrase.tree,
      Chain.calls_grouped, e.calls_trees]

/-- One call with arguments and one without, where a comma and a sum occur. -/
theorem calls_max_add :
    Fault.check none (tokenize "max(1, 2) + add()") = [] ∧
      Expr.calls (Expr.ofFormula "max(1, 2) + add()") = [("max", 2), ("add", 1)] := by
  have hcheck : Fault.check none (tokenize "max(1, 2) + add()") = [] := by decide +kernel
  refine ⟨hcheck, (calls_ofFormula hcheck).trans ?_⟩
  decide +kernel

/-- A call without arguments beside a sum and a product gets one. -/
theorem calls_multiply_beside_product :
    Fault.check none (tokenize "multiply() + 1 * 1") = [] ∧
      writtenCalls (significant (tokenize "multiply() + 1 * 1")) = [("multiply", 0)] ∧
      Expr.calls (Expr.ofFormula "multiply() + 1 * 1") = [("multiply", 1)] := by
  decide +kernel

end Formulary
