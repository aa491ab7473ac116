/-
  Formulary.Proofs.Climbing

  Ordinary precedence parsing of operands that are joined by binary operators, with no
  bracket anywhere.

    * `Operator` lists the operators that a formula can contain, and `looseness` says
      which bind tighter than which.
    * `Chain.climb` turns a chain of operands into a binary tree. It reads from left to
      right and hangs each operator into the right spine of the tree so far, below every
      looser operator and above the others; operators of one looseness associate to the
      left.

  The main operator of a chain is the last one among the loosest: `climb_join` says that
  the tree is split there, and `Chain.joinInduction` lets proofs follow that split.
-/

import Mathlib
import Formulary.Precedence

namespace Formulary

/-! ## Operators -/

/-- A sign in front of an operand. -/
inductive Sign where
  | plus
  | minus
  deriving DecidableEq, Repr

/-- The operators of formulas. -/
inductive Operator where
  | power
  | times
  | divided
  | plus
  | minus
  | less
  | atMost
  | equals
  /-- The other spelling of `equals`. -/
  | doubleEquals
  | atLeast
  | greater
  deriving DecidableEq, Repr

namespace Operator

/-- How an operator is written. -/
def symbol : Operator → String
  | power => "^"
  | times => "*"
  | divided => "/"
  | plus => "+"
  | minus => "-"
  | less => "<"
  | atMost => "<="
  | equals => "="
  | doubleEquals => "=="
  | atLeast => ">="
  | greater => ">"

/-- How loosely an operator binds: `^` the tightest, then `*` and `/`, then `+` and `-`,
    then the comparisons. -/
def looseness : Operator → Nat
  | power => 0
  | times | divided => 1
  | plus | minus => 2
  | less | atMost | equals | doubleEquals | atLeast | greater => 3

/-- The operator that a sign is written like. -/
def ofSign : Sign → Operator
  | .plus => plus
  | .minus => minus

end Operator

/-! ## Chains and trees -/

/-- Operands joined by operators. -/
structure Chain (α : Type) where
  first : α
  rest : List (Operator × α)

/-- A tree of binary operators. -/
inductive Binary (α : Type) where
  | leaf (operand : α)
  | node (operator : Operator) (left right : Binary α)

variable {α β : Type}

namespace Binary

/-- The tree with one more operator and operand at its right end. -/
def extend (o : Operator) (a : α) : Binary α → Binary α
  | leaf b => node o (leaf b) (leaf a)
  | node p left right =>
    if o.looseness < p.looseness then node p left (extend o a right)
    else node o (node p left right) (leaf a)

/-- The tree with operators and operands at its right end, one after the other. -/
def extendAll (t : Binary α) (ps : List (Operator × α)) : Binary α :=
  ps.foldl (fun t p => t.extend p.1 p.2) t

/-- The operators of a tree from left to right. -/
def operators : Binary α → List Operator
  | leaf _ => []
  | node o left right => left.operators ++ o :: right.operators

/-- The value of a tree, given what an operator does with the values on its two sides. -/
def eval (apply : Operator → α → α → α) : Binary α → α
  | leaf a => a
  | node o left right => apply o (eval apply left) (eval apply right)

/-- The tree with other operands. -/
def map (f : α → β) : Binary α → Binary β
  | leaf a => leaf (f a)
  | node o left right => node o (left.map f) (right.map f)

end Binary

namespace Chain

/-- The operands of a chain from left to right. -/
def operands (c : Chain α) : List α := c.first :: c.rest.map Prod.snd

/-- The operators of a chain from left to right. -/
def operators (c : Chain α) : List Operator := c.rest.map Prod.fst

/-- The chain with other operands. -/
def map (f : α → β) (c : Chain α) : Chain β := ⟨f c.first, c.rest.map fun p => (p.1, f p.2)⟩

/-- The chain behind an operator, to stand behind another operand. -/
def behind (o : Operator) (c : Chain α) : List (Operator × α) := (o, c.first) :: c.rest

/-- Two chains with an operator between them. -/
def join (c : Chain α) (o : Operator) (d : Chain α) : Chain α := ⟨c.first, c.rest ++ d.behind o⟩

/-- The tree of a chain by the precedence of its operators. -/
def climb (c : Chain α) : Binary α := (Binary.leaf c.first).extendAll c.rest

@[simp] theorem operators_join (c : Chain α) (o : Operator) (d : Chain α) :
    (c.join o d).operators = c.operators ++ o :: d.operators := by
  simp [operators, join, behind]

@[simp] theorem operands_join (c : Chain α) (o : Operator) (d : Chain α) :
    (c.join o d).operands = c.operands ++ d.operands := by
  simp [operands, join, behind]

@[simp] theorem map_join (f : α → β) (c : Chain α) (o : Operator) (d : Chain α) :
    (c.join o d).map f = (c.map f).join o (d.map f) := by
  simp [map, join, behind]

@[simp] theorem operators_map (f : α → β) (c : Chain α) : (c.map f).operators = c.operators := by
  simp [operators, map, Function.comp_def]

end Chain

/-! ## The main operator -/

/-- Extending a tree appends the new operator. -/
theorem Binary.operators_extend (o : Operator) (a : α) (t : Binary α) :
    (t.extend o a).operators = t.operators ++ [o] := by
  induction t with
  | leaf b => simp [extend, operators]
  | node p left right _ ih =>
    simp only [extend]
    split
    · simp [operators, ih]
    · simp [operators]

theorem Binary.operators_extendAll (ps : List (Operator × α)) (t : Binary α) :
    (t.extendAll ps).operators = t.operators ++ ps.map Prod.fst := by
  induction ps generalizing t with
  | nil => simp [extendAll]
  | cons p ps ih =>
    have hstep : t.extendAll (p :: ps) = (t.extend p.1 p.2).extendAll ps := rfl
    rw [hstep, ih, operators_extend]
    simp

/-- The tree of a chain has the operators of the chain in their order. -/
theorem Chain.operators_climb (c : Chain α) : c.climb.operators = c.operators := by
  rw [climb, Binary.operators_extendAll]
  rfl

/-- An operator that binds no tighter than any operator of a tree takes all of the tree as
    its left operand. -/
theorem Binary.extend_of_le {o : Operator} {t : Binary α} (a : α)
    (h : ∀ p ∈ t.operators, p.looseness ≤ o.looseness) :
    t.extend o a = .node o t (.leaf a) := by
  cases t with
  | leaf b => rfl
  | node p left right =>
    have hp : p.looseness ≤ o.looseness := h p (by simp [operators])
    rw [extend, if_neg (by omega)]

/-- Tighter operators grow into the right operand of a looser one. -/
theorem Binary.extendAll_node {o : Operator} (left right : Binary α)
    {ps : List (Operator × α)} (h : ∀ p ∈ ps, p.1.looseness < o.looseness) :
    (Binary.node o left right).extendAll ps = .node o left (right.extendAll ps) := by
  -- The root stays `o`; only the right operand changes from step to step.
  induction ps generalizing right with
  | nil => rfl
  | cons p ps ih =>
    have hp : p.1.looseness < o.looseness := h p (by simp)
    have hstep : (node o left right).extend p.1 p.2 = .node o left (right.extend p.1 p.2) := by
      rw [extend, if_pos hp]
    calc (node o left right).extendAll (p :: ps)
        = ((node o left right).extend p.1 p.2).extendAll ps := rfl
      _ = (node o left (right.extend p.1 p.2)).extendAll ps := by rw [hstep]
      _ = .node o left ((right.extend p.1 p.2).extendAll ps) :=
          ih _ fun q hq => h q (by simp [hq])

/-- **Main operator.** A chain is split at an operator that is at least as loose as
    everything before it and looser than everything behind it. -/
theorem Chain.climb_join {c : Chain α} {o : Operator} {d : Chain α}
    (hl : ∀ p ∈ c.operators, p.looseness ≤ o.looseness)
    (hr : ∀ p ∈ d.operators, p.looseness < o.looseness) :
    (c.join o d).climb = .node o c.climb d.climb := by
  have hext : c.climb.extend o d.first = .node o c.climb (.leaf d.first) :=
    Binary.extend_of_le _ (by rw [operators_climb]; exact hl)
  have hfold : (c.join o d).climb = (c.climb.extend o d.first).extendAll d.rest := by
    simp [climb, join, behind, Binary.extendAll, List.foldl_append]
  rw [hfold, hext]
  apply Binary.extendAll_node
  intro p hp
  exact hr p.1 (List.mem_map_of_mem hp)

/-- Every chain of more than one operand has a main operator. -/
theorem Chain.exists_join (a : α) {ps : List (Operator × α)} (h : ps ≠ []) :
    ∃ (c : Chain α) (o : Operator) (d : Chain α), ⟨a, ps⟩ = c.join o d ∧
      (∀ p ∈ c.operators, p.looseness ≤ o.looseness) ∧
      (∀ p ∈ d.operators, p.looseness < o.looseness) := by
  induction ps generalizing a with
  | nil => exact absurd rfl h
  | cons p ps ih =>
    obtain ⟨o, b⟩ := p
    by_cases hps : ps = []
    · subst hps
      exact ⟨⟨a, []⟩, o, ⟨b, []⟩, rfl, by simp [operators], by simp [operators]⟩
    · obtain ⟨c, m, d, heq, hl, hr⟩ := ih b hps
      have hops : ps.map Prod.fst = c.operators ++ m :: d.operators := by
        rw [← operators_join, ← heq, operators]
      by_cases hom : o.looseness ≤ m.looseness
      -- The main operator of the rest stays the main operator.
      · refine ⟨⟨a, (o, c.first) :: c.rest⟩, m, d, ?_, ?_, hr⟩
        · obtain ⟨rfl, rfl⟩ := (Chain.mk.injEq ..).mp heq
          rfl
        · intro q hq
          rcases List.mem_cons.mp hq with rfl | hq
          · exact hom
          · exact hl q hq
      -- The first operator is looser than the whole rest.
      · refine ⟨⟨a, []⟩, o, ⟨b, ps⟩, rfl, by simp [operators], ?_⟩
        intro q hq
        have hq : q ∈ c.operators ++ m :: d.operators := hops ▸ hq
        simp only [List.mem_append, List.mem_cons] at hq
        rcases hq with hq | rfl | hq
        · have := hl q hq
          omega
        · omega
        · have := hr q hq
          omega

/-- Induction on a chain along its main operator. -/
@[elab_as_elim]
theorem Chain.joinInduction {motive : Chain α → Prop}
    (single : ∀ a, motive ⟨a, []⟩)
    (join : ∀ (c : Chain α) (o : Operator) (d : Chain α),
      (∀ p ∈ c.operators, p.looseness ≤ o.looseness) →
      (∀ p ∈ d.operators, p.looseness < o.looseness) →
      motive c → motive d → motive (c.join o d)) :
    ∀ c, motive c := by
  intro c
  -- Both parts are shorter than the chain, but neither need be a tail of it.
  generalize hn : c.rest.length = n
  induction n using Nat.strongRecOn generalizing c with
  | ind n ih =>
    obtain ⟨a, ps⟩ := c
    by_cases hps : ps = []
    · subst hps
      exact single a
    · obtain ⟨c, o, d, heq, hl, hr⟩ := exists_join a hps
      have hlen : c.rest.length + (d.rest.length + 1) = n := by
        rw [← hn, heq]
        simp [Chain.join, Chain.behind]
      rw [heq]
      exact join c o d hl hr (ih _ (by omega) c rfl) (ih _ (by omega) d rfl)

/-- The tree of a chain has the operands of the chain. -/
theorem Chain.climb_map (f : α → β) (c : Chain α) : (c.map f).climb = c.climb.map f := by
  induction c using Chain.joinInduction with
  | single a => rfl
  | join c o d hl hr ihc ihd =>
    rw [map_join, climb_join (by simpa using hl) (by simpa using hr), climb_join hl hr, ihc, ihd]
    rfl

/-- Multiplication first, and equal operators from the left: `1 + 2 * 3 - 4`. -/
example : (Chain.mk 1 [(.plus, 2), (.times, 3), (.minus, 4)]).climb =
    .node .minus (.node .plus (.leaf 1) (.node .times (.leaf 2) (.leaf 3))) (.leaf 4) := rfl

end Formulary
