/-
  Formulary.Proofs.ChainedOperands

  Sums and products of more than two operands, written with operators or as one call.

  The operators of a chain such as `a + b + c` associate to the left, so its value is the sum of
  `a + b` and `c` (`Chain.eval_climb_replicate`). A sum of texts goes on where a shorter one ended
  because results are in normal form (`Builtin.add_append`), and so the value is that of the call
  `add(a, b, c)`. Products are alike.
-/

import Formulary.Proofs.NormalForm
import Formulary.Proofs.SignedOperands

namespace Formulary

open Token (significant)

/-! ## Chains of one operator -/

variable {α : Type}

/-- A chain with one operator everywhere is computed from left to right. -/
theorem Binary.eval_extendAll_replicate (apply : Operator → α → α → α) (o : Operator) (ys : List α)
    {t : Binary α} (h : ∀ p ∈ t.operators, p = o) :
    (t.extendAll (ys.map (o, ·))).eval apply = ys.foldl (apply o) (t.eval apply) := by
  induction ys generalizing t with
  | nil => rfl
  | cons y ys ih =>
    have hextend : t.extend o y = .node o t (.leaf y) :=
      Binary.extend_of_le y fun p hp => by rw [h p hp]
    have hstep : t.extendAll ((y :: ys).map (o, ·)) =
        (t.extend o y).extendAll (ys.map (o, ·)) := rfl
    rw [hstep, hextend, ih]
    · rfl
    · simpa [Binary.operators, or_imp, forall_and] using h

theorem Chain.eval_climb_replicate (apply : Operator → α → α → α) (o : Operator) (x : α)
    (ys : List α) : (Chain.mk x (ys.map (o, ·))).climb.eval apply = ys.foldl (apply o) x :=
  Binary.eval_extendAll_replicate apply o ys nofun

/-! ## Phrases of many operands -/

/-- Operands with one operator between each two of them. -/
def Phrase.chained (o : Operator) : Operand → List Operand → Phrase
  | a, [] => .single none a
  | a, b :: rest => .joined none a o (chained o b rest)

/-- Operands with a comma between each two of them. -/
def Phrases.listed : Operand → List Operand → Phrases
  | a, [] => .one (.single none a)
  | a, b :: rest => .more (.single none a) (listed b rest)

/-- A call with these operands as arguments. -/
def Phrase.called (f : String) (a : Operand) (rest : List Operand) : Phrase :=
  .single none (.call f (.listed a rest))

variable (look : String → String) (a : Operand) (rest : List Operand)

theorem Phrase.values_chained (o : Operator) :
    (Phrase.chained o a rest).values look =
      ⟨a.value look, (rest.map (Operand.value look)).map (o, ·)⟩ := by
  induction rest generalizing a with
  | nil => rfl
  | cons b rest ih =>
    rw [chained, values, ih]
    rfl

theorem Phrases.values_listed :
    (Phrases.listed a rest).values look = (a :: rest).map (Operand.value look) := by
  induction rest generalizing a with
  | nil => rfl
  | cons b rest ih =>
    rw [listed, values, ih]
    rfl

theorem Phrase.callsFilled_chained (o : Operator) (h : ∀ b ∈ a :: rest, b.CallsFilled) :
    (Phrase.chained o a rest).CallsFilled := by
  induction rest generalizing a with
  | nil => exact h a List.mem_cons_self
  | cons b rest ih =>
    exact ⟨h a List.mem_cons_self, ih b fun c hc => h c (List.mem_cons_of_mem a hc)⟩

theorem Phrases.callsFilled_listed (h : ∀ b ∈ a :: rest, b.CallsFilled) :
    (Phrases.listed a rest).CallsFilled := by
  induction rest generalizing a with
  | nil => exact h a List.mem_cons_self
  | cons b rest ih =>
    exact ⟨h a List.mem_cons_self, ih b fun c hc => h c (List.mem_cons_of_mem a hc)⟩

/-- The value of a formula that is a phrase is that of the phrase. -/
theorem value_ofFormula_of_callsFilled {formula : String} {e : Phrase} (h : e.CallsFilled)
    (hts : significant (tokenize formula) = e.tokens false) :
    Expr.value look (Expr.ofFormula formula) = e.value look := by
  rw [value_ofFormula_phrase look hts rfl]
  exact Phrase.value_grouped (e.values_trees look _ h) _

/-! ## Sums and products -/

/-- An operator on two texts and the call of a function on any number of them compute `f`, which
    goes on from its own results. -/
structure Operator.Chains (o : Operator) (name : String) (f : List String → String) : Prop where
  append (args rest : List String) : f (args ++ rest) = f (f args :: rest)
  operator (args : List String) : applyOperator o.symbol args = f args
  call (args : List String) : applyFunction name args = f args

theorem chains_plus : Operator.plus.Chains "add" Builtin.add where
  append := Builtin.add_append
  operator _ := rfl
  call _ := rfl

theorem chains_times : Operator.times.Chains "multiply" Builtin.multiply where
  append := Builtin.multiply_append
  operator _ := rfl
  call _ := rfl

variable {o : Operator} {name : String} {f : List String → String}

/-- From one result to the next is from all arguments to the last result. -/
theorem Operator.Chains.foldl_apply (h : o.Chains name f) (args rest : List String) :
    rest.foldl o.apply (f args) = f (args ++ rest) := by
  induction rest generalizing args with
  | nil => rw [List.foldl_nil, List.append_nil]
  | cons s rest ih =>
    have hstep : o.apply (f args) s = f (args ++ [s]) := by
      rw [Operator.apply, h.operator, h.append args [s]]
    rw [List.foldl_cons, hstep, ih, ← List.append_cons]

theorem Operator.Chains.value_chained (h : o.Chains name f) (b : Operand) :
    (Phrase.chained o a (b :: rest)).value look =
      f ((a :: b :: rest).map (Operand.value look)) := by
  have hfirst : o.apply (a.value look) (b.value look) = f [a.value look, b.value look] := by
    rw [Operator.apply, h.operator]
  rw [Phrase.value, Phrase.values_chained, Chain.eval_climb_replicate, List.map_cons,
    List.foldl_cons, hfirst, h.foldl_apply]
  rfl

theorem Operator.Chains.value_called (h : o.Chains name f) :
    (Phrase.called name a rest).value look = f ((a :: rest).map (Operand.value look)) := by
  rw [← h.call, ← Phrases.values_listed]
  rfl

/-- Operators between operands compute what a call with all of the operands computes. -/
theorem Operator.Chains.value_ofFormula (h : o.Chains name f) {a b : Operand} {rest : List Operand}
    (hfilled : ∀ c ∈ a :: b :: rest, c.CallsFilled) {chain call : String}
    (hchain : significant (tokenize chain) = (Phrase.chained o a (b :: rest)).tokens false)
    (hcall : significant (tokenize call) = (Phrase.called name a (b :: rest)).tokens false) :
    Expr.value look (Expr.ofFormula chain) = Expr.value look (Expr.ofFormula call) := by
  have hcalled : (Phrase.called name a (b :: rest)).CallsFilled :=
    Phrases.callsFilled_listed a (b :: rest) hfilled
  rw [value_ofFormula_of_callsFilled look (Phrase.callsFilled_chained a _ o hfilled) hchain,
    value_ofFormula_of_callsFilled look hcalled hcall, h.value_chained, h.value_called]

/-- **Chained results.** The result of the first texts stands for them in front of others, in sums
    and in products. So two or more operands with `+` or `*` between them have the value of the call
    with all of them. Both rest on the normal form: a result that is read is written again. -/
theorem chained_results :
    (∀ x, Decimal.normalize (Decimal.read (Decimal.normalize x)) = Decimal.normalize x) ∧
    (∀ xs ys, Builtin.add (xs ++ ys) = Builtin.add ([Builtin.add xs] ++ ys)) ∧
    (∀ xs ys, Builtin.multiply (xs ++ ys) = Builtin.multiply ([Builtin.multiply xs] ++ ys)) ∧
    ∀ p ∈ [(Operator.plus, "add"), (.times, "multiply")], ∀ a b rest chain call,
      (∀ c ∈ a :: b :: rest, c.CallsFilled) →
      significant (tokenize chain) = (Phrase.chained p.1 a (b :: rest)).tokens false →
      significant (tokenize call) = (Phrase.called p.2 a (b :: rest)).tokens false →
      ∀ look, Expr.value look (Expr.ofFormula chain) = Expr.value look (Expr.ofFormula call) := by
  refine ⟨Decimal.normalize_read_normalize, Builtin.add_append, Builtin.multiply_append, ?_⟩
  intro p hp a b rest chain call hfilled hchain hcall look
  simp only [List.mem_cons, List.not_mem_nil, or_false] at hp
  rcases hp with rfl | rfl
  · exact chains_plus.value_ofFormula look hfilled hchain hcall
  · exact chains_times.value_ofFormula look hfilled hchain hcall

/-- Three references, with two operators or in one call. Three times 2e-11 is zero, since every sum
    is rounded and not the last one only. -/
theorem chained_results_references :
    significant (tokenize "\x7ba\x7d + \x7bb\x7d + \x7bc\x7d") =
      (Phrase.chained .plus (.reference "a") [.reference "b", .reference "c"]).tokens false ∧
    significant (tokenize "add(\x7ba\x7d, \x7bb\x7d, \x7bc\x7d)") =
      (Phrase.called "add" (.reference "a") [.reference "b", .reference "c"]).tokens false ∧
    (∀ look, Expr.value look (Expr.ofFormula "\x7ba\x7d + \x7bb\x7d + \x7bc\x7d") =
      Expr.value look (Expr.ofFormula "add(\x7ba\x7d, \x7bb\x7d, \x7bc\x7d)")) ∧
    Expr.value (fun _ => "2e-11")
      (Expr.ofFormula "add(\x7ba\x7d, \x7bb\x7d, \x7bc\x7d)") = "0" := by
  have hchain : significant (tokenize "\x7ba\x7d + \x7bb\x7d + \x7bc\x7d") =
      (Phrase.chained .plus (.reference "a") [.reference "b", .reference "c"]).tokens false := by
    decide +kernel
  have hcall : significant (tokenize "add(\x7ba\x7d, \x7bb\x7d, \x7bc\x7d)") =
      (Phrase.called "add" (.reference "a") [.reference "b", .reference "c"]).tokens false := by
    decide +kernel
  have hfilled : ∀ c ∈ [Operand.reference "a", .reference "b", .reference "c"], c.CallsFilled := by
    simp [Operand.CallsFilled]
  obtain ⟨-, -, -, hvalue⟩ := chained_results
  exact ⟨hchain, hcall, hvalue (.plus, "add") List.mem_cons_self _ _ _ _ _ hfilled hchain hcall,
    by decide +kernel⟩

end Formulary
