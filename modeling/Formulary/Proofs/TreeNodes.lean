/-
  Formulary.Proofs.TreeNodes

  What the nodes of the tree of an accepted formula look like.

  A tree has nodes at every depth (`Expr.nodes`). A node is proper if an operator has its
  two operands and is known, and if a function is known; where all nodes are proper, no
  value is computed by falling back to an empty text. `proper_nodes_ofFormula` says that
  the check of the tokens is enough for that, although the tree is built from tokens with
  zeros and brackets that the check never sees.
-/

import Formulary.Proofs.Acceptance
import Formulary.Proofs.PhraseTree

namespace Formulary

open Token (significant)

/-! ## Nodes -/

namespace Expr

mutual

/-- An expression and everything below it, each before its parts. -/
def nodes : Expr → List Expr
  | number s => [number s]
  | quoted s => [quoted s]
  | reference n => [reference n]
  | operation s es => operation s es :: nodesOf es
  | call f es => call f es :: nodesOf es
  | group es => group es :: nodesOf es

/-- The nodes of expressions from left to right. -/
def nodesOf : List Expr → List Expr
  | [] => []
  | e :: es => e.nodes ++ nodesOf es

end

/-- A node that the value of a formula can be computed from as it stands. -/
structure Proper (n : Expr) : Prop where
  operator : n.kind = .operator → n.parts.length = 2 ∧ (operator? n.text).isSome
  function : n.kind = .function → isFunction n.text
  kind : n.kind ∈ [.operator, .function, .quoted, .number, .reference, .group]

theorem kind_mem (n : Expr) :
    n.kind ∈ [.operator, .function, .quoted, .number, .reference, .group] := by
  cases n <;> simp [kind]

/-- All nodes of the expressions are proper. -/
def AllProper (es : List Expr) : Prop := ∀ n ∈ nodesOf es, n.Proper

theorem allProper_nil : AllProper [] := fun _ hn => nomatch hn

theorem nodesOf_singleton (e : Expr) : nodesOf [e] = e.nodes := by
  rw [nodesOf, nodesOf, List.append_nil]

theorem allProper_cons {e : Expr} {es : List Expr} :
    AllProper (e :: es) ↔ AllProper [e] ∧ AllProper es := by
  simp only [AllProper, nodesOf_singleton]
  simp only [nodesOf, List.mem_append, or_imp, forall_and]

theorem allProper_leaf {e : Expr} (h : e.nodes = [e]) (he : e.Proper) : AllProper [e] := by
  intro n hn
  rw [nodesOf_singleton, h, List.mem_singleton] at hn
  exact hn ▸ he

theorem allProper_number (s : String) : AllProper [number s] :=
  allProper_leaf (by rw [nodes]) ⟨nofun, nofun, kind_mem _⟩

theorem allProper_quoted (s : String) : AllProper [quoted s] :=
  allProper_leaf (by rw [nodes]) ⟨nofun, nofun, kind_mem _⟩

theorem allProper_reference (m : String) : AllProper [reference m] :=
  allProper_leaf (by rw [nodes]) ⟨nofun, nofun, kind_mem _⟩

theorem allProper_above {e : Expr} {es : List Expr} (h : e.nodes = e :: nodesOf es)
    (he : e.Proper) (hes : AllProper es) : AllProper [e] := by
  intro n hn
  rw [nodesOf_singleton, h, List.mem_cons] at hn
  rcases hn with rfl | hn
  · exact he
  · exact hes n hn

theorem allProper_group {es : List Expr} (h : AllProper es) : AllProper [group es] :=
  allProper_above (by rw [nodes]) ⟨nofun, nofun, kind_mem _⟩ h

theorem allProper_call {f : String} {es : List Expr} (hf : isFunction f = true)
    (h : AllProper es) : AllProper [call f es] :=
  allProper_above (by rw [nodes]) ⟨nofun, fun _ => hf, kind_mem _⟩ h

/-- The operators of formulas are known. -/
theorem isSome_operator?_symbol (o : Operator) : (operator? o.symbol).isSome = true := by
  cases o <;> rfl

theorem allProper_operation (o : Operator) {left right : Expr} (hl : AllProper [left])
    (hr : AllProper [right]) : AllProper [operation o.symbol [left, right]] :=
  allProper_above (by rw [nodes]) ⟨fun _ => ⟨rfl, isSome_operator?_symbol o⟩, nofun, kind_mem _⟩
    (allProper_cons.mpr ⟨hl, hr⟩)

theorem allProper_nested {es : List Expr} (h : AllProper es) (k : Nat) :
    AllProper (nested k es) := by
  induction k with
  | zero => exact h
  | succ k ih => exact allProper_group ih

theorem allProper_wrapped {e : Expr} (h : AllProper [e]) (k : Nat) : AllProper [wrapped k e] := by
  rw [← nested_singleton]
  exact allProper_nested h k

end Expr

open Formulary.Expr (AllProper)

/-- The tree of a chain is proper if its operands are. -/
theorem Chain.allProper_grouped (rank : Operator → Nat) (c : Chain Expr)
    (h : ∀ e ∈ c.operands, AllProper [e]) (k : Nat) : AllProper [c.climb.grouped rank k] := by
  -- The main operator of the chain is the root below the groups, for any number of them.
  induction c using Chain.joinInduction generalizing k with
  | single e => exact Expr.allProper_wrapped (h e (by simp [operands])) k
  | join c o d hl hr ihc ihd =>
    have hc := ihc (fun e he => h e (by simp [he])) (rank o)
    have hd := ihd (fun e he => h e (by simp [he])) (rank o)
    rw [climb_join hl hr, Binary.grouped]
    exact Expr.allProper_wrapped (Expr.allProper_operation o hc hd) _

/-! ## Trees of admissible phrases -/

variable {allowed : Option (List String)}

mutual

/-- The tree of an admissible operand is proper. -/
theorem Operand.allProper_tree (r : Ranking) : ∀ (a : Operand) {inCall : Bool},
    a.Admissible allowed inCall → AllProper [a.tree r]
  | .number s, _, _ => Expr.allProper_number s
  | .literal _ s, _, _ => Expr.allProper_quoted s
  | .reference m, _, _ => Expr.allProper_reference m
  | .emptyGroup, _, _ => Expr.allProper_group (Expr.allProper_nested Expr.allProper_nil _)
  | .group es, _, h => Expr.allProper_group (es.allProper_trees r h.2)
  | .emptyCall _, _, hf => Expr.allProper_call hf (Expr.allProper_nested Expr.allProper_nil _)
  | .call _ es, _, h => Expr.allProper_call h.1 (es.allProper_trees r h.2)

/-- The trees of the operands of an admissible phrase are proper. -/
theorem Phrase.allProper_trees (r : Ranking) : ∀ (e : Phrase) {inCall : Bool},
    e.Admissible allowed inCall → ∀ t ∈ (e.trees r).operands, AllProper [t]
  | .single sign a, _, h, t, ht => by
    -- The operands are the zero of the sign and the operand itself.
    rcases Chain.mem_operands_signed ht with rfl | rfl | ht
    · exact Expr.allProper_number "0"
    · exact a.allProper_tree r h
    · exact nomatch ht
  | .joined sign a o e, _, h, t, ht => by
    rcases Chain.mem_operands_signed ht with rfl | rfl | ht
    · exact Expr.allProper_number "0"
    · exact a.allProper_tree r h.1
    · exact e.allProper_trees r h.2 t ht

theorem Phrases.allProper_trees (r : Ranking) : ∀ (es : Phrases) {inCall : Bool},
    es.Admissible allowed inCall → AllProper (es.trees r)
  | .one e, _, h => Chain.allProper_grouped _ _ (e.allProper_trees r h) _
  | .more e es, _, h =>
    Expr.allProper_cons.mpr
      ⟨Chain.allProper_grouped _ _ (e.allProper_trees r h.1) _, es.allProper_trees r h.2⟩

end

/-! ## Trees of accepted formulas -/

/-- A formula of blanks is read as nothing. -/
theorem ofFormula_of_blank {formula : String} (h : significant (tokenize formula) = []) :
    Expr.ofFormula formula = [] := by
  have hsig : significant (Token.supplyZeros (tokenize formula)) = [] := by
    rw [Token.supplyZeros, Token.significant_supplyZerosAfter, h]
    rfl
  rw [Expr.ofFormula, Expr.ofTokens_bracketed hsig rfl]
  rfl

/-- **Nodes.** A formula without faults is read as nothing if it is blank and as one expression
    otherwise, and at every depth an operator has two operands and is known, and a function is
    known. -/
theorem proper_nodes_ofFormula {formula : String}
    (h : Fault.check allowed (tokenize formula) = []) :
    (Expr.ofFormula formula).length = (if (tokenize formula).all Token.isBlank then 0 else 1) ∧
      ∀ n ∈ Expr.nodesOf (Expr.ofFormula formula), n.Proper := by
  have hblank : significant (tokenize formula) = [] ↔
      (tokenize formula).all Token.isBlank = true := by
    simp [significant]
  rcases exists_phrase_of_check h with hnil | ⟨e, htoks, he⟩
  · rw [ofFormula_of_blank hnil, if_pos (hblank.mp hnil)]
    exact ⟨rfl, Expr.allProper_nil⟩
  · -- A phrase has tokens, so the formula is not blank.
    have hne : (tokenize formula).all Token.isBlank ≠ true := by
      intro hall
      exact e.tokens_ne_nil (htoks.symm.trans (hblank.mpr hall))
    have htree := e.ofTokens_bracketed htoks rfl
    rw [Expr.ofFormula, htree, if_neg hne]
    exact ⟨rfl, Chain.allProper_grouped _ _ (e.allProper_trees _ he) _⟩

/-- A sign, a bracket, a call without and one with arguments. -/
theorem proper_nodes_sign_calls :
    Fault.check none (tokenize "- 2 * (max(1, \x7bx\x7d ^ 2) < add())") = [] ∧
      (Expr.ofFormula "- 2 * (max(1, \x7bx\x7d ^ 2) < add())").length = 1 ∧
      ∀ n ∈ Expr.nodesOf (Expr.ofFormula "- 2 * (max(1, \x7bx\x7d ^ 2) < add())"), n.Proper := by
  have hcheck : Fault.check none (tokenize "- 2 * (max(1, \x7bx\x7d ^ 2) < add())") = [] := by
    cbv
  have hblank : (tokenize "- 2 * (max(1, \x7bx\x7d ^ 2) < add())").all Token.isBlank = false := by
    decide +kernel
  obtain ⟨hlen, hnodes⟩ := proper_nodes_ofFormula hcheck
  rw [hblank] at hlen
  exact ⟨hcheck, hlen, hnodes⟩

end Formulary
