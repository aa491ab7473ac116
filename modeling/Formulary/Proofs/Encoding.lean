/-
  Formulary.Proofs.Encoding

  The brackets that stand for precedence are read as the tree that precedence gives.

    * `Ranking.Ranks r ts` says that a ranking knows every operator and comma of a token
      list; `rank_le` and `rank_lt` say that its ranks follow the looseness of operators.
    * `Binary.grouped` is the tree of a chain as the builder makes it: the operators as
      precedence has them, with a group for every level that an operand does not use up.
    * `readsItems_chain` says that `n` levels of brackets around a chain, in which every
      operator closes and opens again as many levels as its rank, are read as that tree.
-/

import Formulary.Proofs.Reading

namespace Formulary

open Builder (ReadsAs ReadsItems)
open Token (opening closing)

variable {α β : Type}

/-! ## Ranks -/

/-- The group of an operator. -/
def Operator.precedence : Operator → Precedence
  | power => .power
  | times | divided => .multiplicative
  | plus | minus => .additive
  | less | atMost | equals | doubleEquals | atLeast | greater => .comparison

theorem Operator.ofSymbol?_symbol (o : Operator) :
    Precedence.ofSymbol? o.symbol = some o.precedence := by
  cases o <;> decide

theorem Operator.precedence?_token (o : Operator) : o.token.precedence? = some o.precedence := by
  rw [Token.precedence?, if_pos (by rfl)]
  exact o.ofSymbol?_symbol

theorem Operator.idxOf_precedence (o : Operator) :
    Precedence.all.idxOf o.precedence = o.looseness := by
  cases o <;> decide

namespace Ranking

/-- The ranking lists its groups by looseness, and knows the operators and commas of the
    tokens. -/
structure Ranks (r : Ranking) (ts : List Token) : Prop where
  sorted : r.groups.Pairwise fun p q => Precedence.all.idxOf p < Precedence.all.idxOf q
  group : ∀ t ∈ ts, ∀ p, t.precedence? = some p → p ∈ r.groups
  comma : ∀ t ∈ ts, t.kind = .comma → r.comma = true

theorem ranks_ofTokens (ts : List Token) : (ofTokens ts).Ranks ts where
  sorted := List.Pairwise.filter _ (by decide)
  group t ht p hp := by
    simp only [ofTokens, List.mem_filter, List.any_eq_true, decide_eq_true_eq]
    exact ⟨by cases p <;> decide, t, ht, hp⟩
  comma t ht hk := by
    simp only [ofTokens, List.any_eq_true, decide_eq_true_eq]
    exact ⟨t, ht, hk⟩

theorem Ranks.mono {r : Ranking} {ts us : List Token} (h : r.Ranks us) (hsub : ts ⊆ us) :
    r.Ranks ts :=
  ⟨h.sorted, fun t ht => h.group t (hsub ht), fun t ht => h.comma t (hsub ht)⟩

theorem Ranks.operator {r : Ranking} {ts : List Token} (h : r.Ranks ts) {o : Operator}
    (ho : o.token ∈ ts) : o.precedence ∈ r.groups :=
  h.group _ ho _ o.precedence?_token

theorem rank_token {r : Ranking} {o : Operator} (h : o.precedence ∈ r.groups) :
    r.rank o.token = r.groups.idxOf o.precedence := by
  simp [rank, Operator.token, o.ofSymbol?_symbol, h]

/-- Every operator closes fewer levels than there are groups. -/
theorem rank_lt_length {r : Ranking} {o : Operator} (h : o.precedence ∈ r.groups) :
    r.rank o.token < r.groups.length := by
  rw [rank_token h]
  exact List.idxOf_lt_length_of_mem h

/-- In a list sorted by position in another, positions follow. -/
theorem idxOf_lt_idxOf {ps : List Precedence} {p q : Precedence}
    (hs : ps.Pairwise fun p q => Precedence.all.idxOf p < Precedence.all.idxOf q)
    (hp : p ∈ ps) (hq : q ∈ ps) (h : ps.idxOf p < ps.idxOf q) :
    Precedence.all.idxOf p < Precedence.all.idxOf q := by
  have hlp : ps.idxOf p < ps.length := List.idxOf_lt_length_of_mem hp
  have hlq : ps.idxOf q < ps.length := List.idxOf_lt_length_of_mem hq
  have hlt := List.pairwise_iff_getElem.mp hs _ _ hlp hlq h
  rwa [List.getElem_idxOf hlp, List.getElem_idxOf hlq] at hlt

theorem idxOf_le_idxOf {ps : List Precedence} {p q : Precedence}
    (hs : ps.Pairwise fun p q => Precedence.all.idxOf p < Precedence.all.idxOf q)
    (hp : p ∈ ps) (hq : q ∈ ps) (h : ps.idxOf p ≤ ps.idxOf q) :
    Precedence.all.idxOf p ≤ Precedence.all.idxOf q := by
  rcases Nat.lt_or_eq_of_le h with hlt | heq
  · exact Nat.le_of_lt (idxOf_lt_idxOf hs hp hq hlt)
  · have hlp : ps.idxOf p < ps.length := List.idxOf_lt_length_of_mem hp
    have hlq : ps.idxOf q < ps.length := List.idxOf_lt_length_of_mem hq
    have hsame : p = q := calc
      p = ps[ps.idxOf p] := (List.getElem_idxOf hlp).symm
      _ = ps[ps.idxOf q] := by simp only [heq]
      _ = q := List.getElem_idxOf hlq
    exact Nat.le_of_eq (congrArg Precedence.all.idxOf hsame)

/-- Ranks follow looseness. -/
theorem Ranks.rank_le {r : Ranking} {ts : List Token} (h : r.Ranks ts) {o p : Operator}
    (ho : o.precedence ∈ r.groups) (hp : p.precedence ∈ r.groups)
    (hop : o.looseness ≤ p.looseness) : r.rank o.token ≤ r.rank p.token := by
  rw [rank_token ho, rank_token hp]
  apply Nat.le_of_not_lt
  intro hlt
  have hloose := idxOf_lt_idxOf h.sorted hp ho hlt
  rw [Operator.idxOf_precedence, Operator.idxOf_precedence] at hloose
  omega

/-- Ranks of operators of different looseness differ. -/
theorem Ranks.rank_lt {r : Ranking} {ts : List Token} (h : r.Ranks ts) {o p : Operator}
    (ho : o.precedence ∈ r.groups) (hp : p.precedence ∈ r.groups)
    (hop : o.looseness < p.looseness) : r.rank o.token < r.rank p.token := by
  rw [rank_token ho, rank_token hp]
  apply Nat.lt_of_not_le
  intro hle
  have hloose := idxOf_le_idxOf h.sorted hp ho hle
  rw [Operator.idxOf_precedence, Operator.idxOf_precedence] at hloose
  omega

end Ranking

/-! ## Encoded tokens -/

namespace Token

/-- What the builder sees of the tokens: the levels that a ranking puts in, without the
    tokens that mean nothing to a tree. -/
def encoded (r : Ranking) (ts : List Token) : List Token :=
  (ts.flatMap (bracketedBy r)).filter matters

theorem encoded_append (r : Ranking) (ts us : List Token) :
    encoded r (ts ++ us) = encoded r ts ++ encoded r us := by
  simp [encoded]

theorem encoded_cons (r : Ranking) (t : Token) (ts : List Token) :
    encoded r (t :: ts) = (bracketedBy r t).filter matters ++ encoded r ts := by
  simp [encoded]

@[simp] theorem filter_matters_opening (n : Nat) : (opening n).filter matters = opening n := by
  simp [opening, matters]

@[simp] theorem filter_matters_closing (n : Nat) : (closing n).filter matters = closing n := by
  simp [closing, matters]

/-- An operator closes as many levels as its rank and opens them again. -/
theorem encoded_operator (r : Ranking) (o : Operator) (ts : List Token) :
    encoded r (o.token :: ts) =
      closing (r.rank o.token) ++ o.token :: (opening (r.rank o.token) ++ encoded r ts) := by
  have hrow : bracketedBy r o.token =
      closing (r.rank o.token) ++ o.token :: opening (r.rank o.token) := rfl
  have hkeep : o.token.matters = true := rfl
  rw [encoded_cons, hrow, List.filter_append, List.filter_cons, if_pos hkeep,
    filter_matters_opening, filter_matters_closing, List.append_assoc, List.cons_append]

/-- A comma closes and opens again one level for every group of operators. -/
theorem encoded_separator (r : Ranking) (ts : List Token) :
    encoded r (separator :: ts) =
      closing r.groups.length ++ (opening r.groups.length ++ encoded r ts) := by
  rw [encoded_cons]
  simp [bracketedBy, separator, Ranking.rank, matters]

theorem encoded_leftBracket (r : Ranking) (ts : List Token) :
    encoded r (leftBracket :: ts) = opening r.weight ++ encoded r ts := by
  rw [encoded_cons]
  simp [bracketedBy, leftBracket]

theorem encoded_rightBracket (r : Ranking) (ts : List Token) :
    encoded r (rightBracket :: ts) = closing r.weight ++ encoded r ts := by
  rw [encoded_cons]
  simp [bracketedBy, rightBracket]

/-- A token that is neither ranked nor a bracket stands for itself. -/
theorem bracketedBy_of_rank {r : Ranking} {t : Token} (hr : r.rank t = 0)
    (ho : t.kind ≠ .openBracket) (hc : t.kind ≠ .closeBracket) : bracketedBy r t = [t] := by
  unfold bracketedBy
  split
  · contradiction
  · contradiction
  · simp [hr, opening, closing]

end Token

/-! ## The tree of a chain -/

/-- The tree of a chain inside `n` levels of brackets: an operator takes as many levels as
    its rank, and the levels left over are groups. -/
def Binary.grouped (rank : Operator → Nat) : Binary Expr → Nat → Expr
  | leaf e, n => Expr.wrapped n e
  | node o left right, n =>
    Expr.wrapped (n - rank o)
      (.operation o.symbol [left.grouped rank (rank o), right.grouped rank (rank o)])

/-- A level looser than every operator is a group. -/
theorem Binary.grouped_succ {rank : Operator → Nat} {t : Binary Expr} {n : Nat}
    (h : ∀ o ∈ t.operators, rank o ≤ n) :
    t.grouped rank (n + 1) = .group [t.grouped rank n] := by
  cases t with
  | leaf e => rfl
  | node o left right =>
    have ho : rank o ≤ n := h o (by simp [operators])
    have hsub : n + 1 - rank o = n - rank o + 1 := by omega
    rw [grouped, hsub, Expr.wrapped, grouped]

/-- A chain as tokens, given the tokens of its operands. -/
def Chain.flat (tok : α → List Token) (c : Chain α) : List Token :=
  tok c.first ++ c.rest.flatMap fun p => p.1.token :: tok p.2

theorem Chain.flat_join (tok : α → List Token) (c : Chain α) (o : Operator) (d : Chain α) :
    (c.join o d).flat tok = c.flat tok ++ o.token :: d.flat tok := by
  simp [flat, join, behind]

/-- `k` levels around a chain whose operators all rank below `k` are one value: with no
    level there is no operator, and else the outermost level is a group. -/
theorem readsAs_of_readsItems {r : Ranking} {tok : α → List Token} {tree : α → Expr}
    {d : Chain α} {k : Nat}
    (hread : ∀ a ∈ d.operands, ReadsAs (Token.encoded r (tok a)) (tree a))
    (hrank : ∀ o ∈ d.operators, r.rank o.token < k)
    (ih : ∀ n, (∀ o ∈ d.operators, r.rank o.token ≤ n) →
      ReadsItems (opening n ++ (Token.encoded r (d.flat tok) ++ closing n))
        [(d.map tree).climb.grouped (fun o => r.rank o.token) n]) :
    ReadsAs (opening k ++ (Token.encoded r (d.flat tok) ++ closing k))
      ((d.map tree).climb.grouped (fun o => r.rank o.token) k) := by
  -- Without levels the chain is a single operand; otherwise the outermost level is a group.
  cases k with
  | zero =>
    obtain ⟨a, ps⟩ := d
    cases ps with
    | nil =>
      have ha := hread a (by simp [Chain.operands])
      have htoks : opening 0 ++ (Token.encoded r ((⟨a, []⟩ : Chain α).flat tok) ++ closing 0) =
          Token.encoded r (tok a) := by
        simp [opening, closing, Chain.flat]
      rw [htoks]
      exact ha
    | cons p ps => exact absurd (hrank p.1 (by simp [Chain.operators])) (Nat.not_lt_zero _)
  | succ k =>
    have hle : ∀ o ∈ d.operators, r.rank o.token ≤ k := fun o ho => Nat.le_of_lt_succ (hrank o ho)
    have htoks : opening (k + 1) ++ (Token.encoded r (d.flat tok) ++ closing (k + 1)) =
        .leftBracket :: ((opening k ++ (Token.encoded r (d.flat tok) ++ closing k)) ++
          [.rightBracket]) := by
      simp [Token.opening_succ, Token.closing_succ]
    rw [htoks, Binary.grouped_succ (by simpa [Chain.operators_climb] using hle)]
    exact (ih k hle).group

/-- **Chain.** Levels around a chain, at least as many as any of its operators closes, are
    read as the tree of the chain. -/
theorem readsItems_chain {r : Ranking} {ts : List Token} (hr : r.Ranks ts)
    {tok : α → List Token} {tree : α → Expr} (c : Chain α)
    (hops : ∀ o ∈ c.operators, o.precedence ∈ r.groups)
    (hread : ∀ a ∈ c.operands, ReadsAs (Token.encoded r (tok a)) (tree a)) :
    ∀ n, (∀ o ∈ c.operators, r.rank o.token ≤ n) →
      ReadsItems (opening n ++ (Token.encoded r (c.flat tok) ++ closing n))
        [(c.map tree).climb.grouped (fun o => r.rank o.token) n] := by
  -- Along the main operator: what it closes ends the levels of the left part, since no
  -- operator there has a higher rank, and what it opens again surrounds the right part.
  induction c using Chain.joinInduction with
  | single a =>
    intro n _
    have ha := (hread a (by simp [Chain.operands])).items.levels n
    rw [Expr.nested_singleton] at ha
    have htoks : (⟨a, []⟩ : Chain α).flat tok = tok a := by simp [Chain.flat]
    rw [htoks]
    exact ha
  | join c o d hl hd ihc ihd =>
    intro n hn
    simp only [Chain.operators_join, List.mem_append, List.mem_cons] at hops hn
    simp only [Chain.operands_join, List.mem_append] at hread
    have ho : o.precedence ∈ r.groups := hops o (.inr (.inl rfl))
    have hrank : r.rank o.token ≤ n := hn o (.inr (.inl rfl))
    -- The operator splits its levels: the rest of them are groups around the operation.
    obtain ⟨m, rfl⟩ : ∃ m, n = m + r.rank o.token := ⟨n - r.rank o.token, by omega⟩
    have hleft := ihc (fun p hp => hops p (.inl hp)) (fun a ha => hread a (.inl ha))
      (r.rank o.token) fun p hp => hr.rank_le (hops p (.inl hp)) ho (hl p hp)
    -- Every operator on the right has a lower rank, so that the right part is one value
    -- and the operation does not take only a piece of it.
    have hright := readsAs_of_readsItems (fun a ha => hread a (.inr ha))
      (fun p hp => hr.rank_lt (hops p (.inr (.inr hp))) ho (hd p hp))
      (ihd (fun p hp => hops p (.inr (.inr hp))) fun a ha => hread a (.inr ha))
    have hwhole := (hleft.operation o hright).levels m
    rw [Expr.nested_singleton] at hwhole
    have htree : ((c.join o d).map tree).climb.grouped (fun o => r.rank o.token)
          (m + r.rank o.token) =
        Expr.wrapped m (.operation o.symbol
          [(c.map tree).climb.grouped (fun o => r.rank o.token) (r.rank o.token),
            (d.map tree).climb.grouped (fun o => r.rank o.token) (r.rank o.token)]) := by
      rw [Chain.map_join, Chain.climb_join (by simpa using hl) (by simpa using hd),
        Binary.grouped, Nat.add_sub_cancel]
    have htoks : opening (m + r.rank o.token) ++
          (Token.encoded r ((c.join o d).flat tok) ++ closing (m + r.rank o.token)) =
        opening m ++ ((opening (r.rank o.token) ++
          (Token.encoded r (c.flat tok) ++ closing (r.rank o.token)) ++ o.token ::
            (opening (r.rank o.token) ++
              (Token.encoded r (d.flat tok) ++ closing (r.rank o.token)))) ++ closing m) := by
      rw [Chain.flat_join, Token.encoded_append, Token.encoded_operator, Token.opening_add,
        Nat.add_comm m, Token.closing_add]
      simp only [List.append_assoc, List.cons_append]
    rw [htree, htoks]
    exact hwhole

end Formulary
