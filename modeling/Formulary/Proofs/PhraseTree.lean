/-
  Formulary.Proofs.PhraseTree

  The tree that a formula of the grammar is read as, with its brackets and calls.

  `Phrase.tree` gives the tree by recursion on the syntax: a phrase is the tree of its
  chain, a bracket a group of its phrases, a call its phrases as arguments. Where nothing
  stands between two brackets, the levels that the brackets stand for remain as groups
  inside each other.

  `Phrase.ofTokens_bracketed` says that supplying zeros, writing precedence out as
  brackets and building lead to that tree, whatever blanks stand between the tokens.
-/

import Formulary.Proofs.Encoding
import Formulary.Proofs.LeftOperands

namespace Formulary

open Builder (ReadsAs ReadsItems)
open Token (opening closing)

variable {α β : Type}

/-! ## Trees of phrases -/

/-- A chain that starts with an operand, or with a sign between a zero and that operand. -/
def Chain.signed (zero : α) (sign : Option Sign) (a : α) (rest : List (Operator × α)) : Chain α :=
  match sign with
  | none => ⟨a, rest⟩
  | some s => ⟨zero, (.ofSign s, a) :: rest⟩

theorem Chain.map_signed (f : α → β) (zero : α) (sign : Option Sign) (a : α)
    (rest : List (Operator × α)) :
    (signed zero sign a rest).map f =
      signed (f zero) sign (f a) (rest.map fun p => (p.1, f p.2)) := by
  cases sign <;> rfl

theorem Chain.mem_operands_signed {zero a b : α} {sign : Option Sign}
    {rest : List (Operator × α)} (h : b ∈ (signed zero sign a rest).operands) :
    b = zero ∨ b = a ∨ b ∈ rest.map Prod.snd := by
  cases sign with
  | none => exact .inr (List.mem_cons.mp h)
  | some s =>
    rcases List.mem_cons.mp h with rfl | h
    · exact .inl rfl
    · exact .inr (List.mem_cons.mp h)

/-- The operands of a phrase, with a zero in front of every sign. -/
def Phrase.chain : Phrase → Chain Operand
  | .single sign a => .signed (.number "0") sign a []
  | .joined sign a o e => .signed (.number "0") sign a (e.chain.behind o)

mutual

/-- The tree of an operand under a ranking. -/
def Operand.tree (r : Ranking) : Operand → Expr
  | .number s => .number s
  | .literal _ s => .quoted s
  | .reference n => .reference n
  | .emptyGroup => .group (Expr.nested (r.weight - 1) [])
  | .group es => .group (es.trees r)
  | .emptyCall f => .call f (Expr.nested (r.weight - 1) [])
  | .call f es => .call f (es.trees r)

/-- The trees of the operands of a phrase. -/
def Phrase.trees (r : Ranking) : Phrase → Chain Expr
  | .single sign a => .signed (.number "0") sign (a.tree r) []
  | .joined sign a o e => .signed (.number "0") sign (a.tree r) ((e.trees r).behind o)

/-- The trees of phrases inside a bracket, of which one level opens the bracket itself. -/
def Phrases.trees (r : Ranking) : Phrases → List Expr
  | .one e => [(e.trees r).climb.grouped (fun o => r.rank o.token) (r.weight - 1)]
  | .more e es =>
    (e.trees r).climb.grouped (fun o => r.rank o.token) (r.weight - 1) :: es.trees r

end

/-- The tree of a phrase inside a number of levels. -/
def Phrase.tree (r : Ranking) (n : Nat) (e : Phrase) : Expr :=
  (e.trees r).climb.grouped (fun o => r.rank o.token) n

theorem Phrase.map_chain (r : Ranking) (e : Phrase) : e.chain.map (Operand.tree r) = e.trees r := by
  match e with
  | .single sign a => rw [chain, Chain.map_signed, trees, Operand.tree, List.map_nil]
  | .joined sign a o e =>
    rw [chain, Chain.map_signed, trees, Operand.tree, ← map_chain r e]
    rfl

/-- The tokens of a phrase are those of its chain. -/
theorem Phrase.flat_chain (e : Phrase) : e.chain.flat (Operand.tokens true) = e.tokens true := by
  match e with
  | .single none a => simp [chain, Chain.signed, Chain.flat, tokens, Sign.tokens]
  | .single (some s) a =>
    simp [chain, Chain.signed, Chain.flat, tokens, Sign.tokens, Operand.tokens, Token.zero]
  | .joined none a o e =>
    rw [tokens, ← flat_chain e]
    simp [chain, Chain.signed, Chain.behind, Chain.flat, Sign.tokens]
  | .joined (some s) a o e =>
    rw [tokens, ← flat_chain e]
    simp [chain, Chain.signed, Chain.behind, Chain.flat, Sign.tokens, Operand.tokens, Token.zero]

theorem Chain.token_mem_flat {tok : α → List Token} {c : Chain α} {o : Operator}
    (h : o ∈ c.operators) : o.token ∈ c.flat tok := by
  obtain ⟨p, hp, rfl⟩ := List.mem_map.mp h
  simp only [flat, List.mem_append, List.mem_flatMap]
  exact .inr ⟨p, hp, by simp⟩

/-! ## Brackets of a ranking -/

theorem Ranking.weight_pos (r : Ranking) : 0 < r.weight := by
  rw [weight]
  omega

theorem Ranking.length_groups_le_levels (r : Ranking) : r.groups.length ≤ r.levels := by
  rw [levels]
  omega

theorem Ranking.length_groups_le_weight (r : Ranking) : r.groups.length ≤ r.weight := by
  have := r.length_groups_le_levels
  rw [weight]
  omega

/-- Where a comma occurs, it closes all levels of a bracket but one. -/
theorem Ranking.weight_of_comma {r : Ranking} (h : r.comma = true) :
    r.weight - 1 = r.groups.length := by
  simp [weight, levels, h]

/-- A bracket on the left stands for its own level and those inside. -/
theorem Token.opening_weight (r : Ranking) :
    opening r.weight = .leftBracket :: opening (r.weight - 1) := by
  have hw : r.weight = (r.weight - 1) + 1 := by
    have := r.weight_pos
    omega
  rw [hw, opening_succ, Nat.add_sub_cancel]

theorem Token.closing_weight (r : Ranking) :
    closing r.weight = closing (r.weight - 1) ++ [.rightBracket] := by
  have hw : r.weight = (r.weight - 1) + 1 := by
    have := r.weight_pos
    omega
  rw [hw, closing_succ, Nat.add_sub_cancel]

/-- The tokens of a bracket around others. -/
theorem Token.encoded_bracket (r : Ranking) (ts : List Token) :
    encoded r (.leftBracket :: (ts ++ [.rightBracket])) =
      .leftBracket :: ((opening (r.weight - 1) ++ (encoded r ts ++ closing (r.weight - 1))) ++
        [.rightBracket]) := by
  have hnil : encoded r [] = [] := rfl
  rw [encoded_leftBracket, encoded_append, encoded_rightBracket, hnil, opening_weight,
    closing_weight]
  simp

theorem Token.encoded_function (r : Ranking) (f : String) (ts : List Token) :
    encoded r (⟨.function, f⟩ :: ts) = ⟨.function, f⟩ :: encoded r ts := rfl

/-- A phrase inside enough levels is read as its tree. -/
theorem Phrase.readsItems {r : Ranking} {e : Phrase} (hr : r.Ranks (e.tokens true))
    (hread : ∀ a ∈ e.chain.operands, ReadsAs (Token.encoded r (a.tokens true)) (a.tree r))
    {n : Nat} (hn : r.groups.length ≤ n + 1) :
    ReadsItems (opening n ++ (Token.encoded r (e.tokens true) ++ closing n)) [e.tree r n] := by
  have hops : ∀ o ∈ e.chain.operators, o.precedence ∈ r.groups := by
    intro o ho
    apply hr.operator
    rw [← e.flat_chain]
    exact Chain.token_mem_flat ho
  have h := readsItems_chain hr e.chain hops hread n fun o ho => by
    have := Ranking.rank_lt_length (hops o ho)
    omega
  rwa [e.flat_chain, e.map_chain] at h

/-! ## Reading a phrase -/

/-- A literal or a name is read as one value. -/
theorem readsAs_singleton {t : Token} {e : Expr} (hc : e.Complete) (hk : t.kind ≠ .function)
    (ht : ∀ b : Builder, b.take t = { b with items := b.items.attach e }) : ReadsAs [t] e where
  complete := hc
  read b rest := by
    rw [List.singleton_append, Builder.read_cons _ _ hk, ht]

theorem readsAs_number (r : Ranking) (s : String) :
    ReadsAs (Token.encoded r ((Operand.number s).tokens true)) ((Operand.number s).tree r) :=
  readsAs_singleton (fun _ _ h => nomatch h) (by simp) fun _ => rfl

mutual

/-- Operands, and phrases inside the levels of a bracket, are read as their trees. -/
theorem Operand.readsAs {r : Ranking} : ∀ a : Operand, r.Ranks (a.tokens true) →
    ReadsAs (Token.encoded r (a.tokens true)) (a.tree r)
  | .number s, _ => readsAs_number r s
  | .literal q s, _ => by
    have htoks : Token.encoded r ((Operand.literal q s).tokens true) = [⟨.quoted, s⟩] := by
      cases q <;> rfl
    rw [htoks]
    exact readsAs_singleton (fun _ _ h => nomatch h) (by simp) fun _ => rfl
  | .reference n, _ => by
    have htoks : Token.encoded r ((Operand.reference n).tokens true) = [⟨.reference, n⟩] := rfl
    rw [htoks]
    exact readsAs_singleton (fun _ _ h => nomatch h) (by simp) fun _ => rfl
  | .emptyGroup, _ => by
    -- No items, but the levels inside the bracket are there all the same.
    have h := Token.encoded_bracket r []
    rw [List.nil_append] at h
    rw [Operand.tokens, h]
    exact (Builder.readsItems_nil.levels (r.weight - 1)).group
  | .group es, hr => by
    rw [Operand.tokens, Token.encoded_bracket]
    exact (es.readsItems (hr.mono (by simp [Operand.tokens]))).group
  | .emptyCall f, _ => by
    have h := Token.encoded_bracket r []
    rw [List.nil_append] at h
    rw [Operand.tokens, Token.encoded_function, h]
    exact (Builder.readsItems_nil.levels (r.weight - 1)).call f
  | .call f es, hr => by
    have hes : r.Ranks (es.tokens true) := hr.mono fun t ht => by simp [Operand.tokens, ht]
    rw [Operand.tokens, Token.encoded_function, Token.encoded_bracket]
    exact (es.readsItems hes).call f

theorem Phrase.readsAs_operands {r : Ranking} : ∀ e : Phrase, r.Ranks (e.tokens true) →
    ∀ a ∈ e.chain.operands, ReadsAs (Token.encoded r (a.tokens true)) (a.tree r)
  | .single sign a, hr => by
    have ha := a.readsAs (hr.mono (by simp [Phrase.tokens]))
    intro b hb
    rw [Phrase.chain] at hb
    rcases Chain.mem_operands_signed hb with rfl | rfl | hb
    · exact readsAs_number r "0"
    · exact ha
    · exact nomatch hb
  | .joined sign a o e, hr => by
    have ha := a.readsAs (hr.mono (by simp [Phrase.tokens]))
    have he := e.readsAs_operands (hr.mono fun t ht => by simp [Phrase.tokens, ht])
    intro b hb
    rw [Phrase.chain] at hb
    rcases Chain.mem_operands_signed hb with rfl | rfl | hb
    · exact readsAs_number r "0"
    · exact ha
    · exact he b hb

theorem Phrases.readsItems {r : Ranking} : ∀ es : Phrases, r.Ranks (es.tokens true) →
    ReadsItems (opening (r.weight - 1) ++
      (Token.encoded r (es.tokens true) ++ closing (r.weight - 1))) (es.trees r)
  | .one e, hr => by
    have hlen : r.groups.length ≤ r.weight - 1 + 1 := by
      have := r.length_groups_le_weight
      omega
    exact Phrase.readsItems hr (e.readsAs_operands hr) hlen
  | .more e es, hr => by
    have hre : r.Ranks (e.tokens true) := hr.mono (by simp [Phrases.tokens])
    have hw : r.weight - 1 = r.groups.length :=
      Ranking.weight_of_comma (hr.comma .separator (by simp [Phrases.tokens]) rfl)
    have hfirst := Phrase.readsItems hre (e.readsAs_operands hre)
      (n := r.weight - 1) (by omega)
    have hrest := es.readsItems (hr.mono (by simp [Phrases.tokens]))
    -- The comma closes the levels of one phrase and opens those of the next.
    have htoks : opening (r.weight - 1) ++
          (Token.encoded r ((Phrases.more e es).tokens true) ++ closing (r.weight - 1)) =
        (opening (r.weight - 1) ++ (Token.encoded r (e.tokens true) ++ closing (r.weight - 1))) ++
          (opening (r.weight - 1) ++
            (Token.encoded r (es.tokens true) ++ closing (r.weight - 1))) := by
      rw [Phrases.tokens, Token.encoded_append, Token.encoded_separator, hw]
      simp only [List.append_assoc]
    rw [htoks]
    exact hfirst.append hrest

end

/-! ## Zeros and blanks -/

namespace Token

theorem supplyZerosAfter_cons {t : Token} (last : Option Kind) (ts : List Token)
    (h : t.isSign = false) :
    supplyZerosAfter last (t :: ts) = t :: supplyZerosAfter (t.lastKind last) ts := by
  simp [supplyZerosAfter, h]

/-- Behind a value an operator is no sign. -/
theorem supplyZerosAfter_operator {k : Kind} (h : k.endsValue = true) (o : Operator)
    (ts : List Token) :
    supplyZerosAfter (some k) (o.token :: ts) =
      o.token :: supplyZerosAfter (some .operator) ts := by
  have hk : lacksOperand (some k) = false := by
    cases k <;> first | rfl | exact nomatch h
  rw [supplyZerosAfter, hk, Bool.and_false, if_neg Bool.false_ne_true]
  rfl

/-- A sign without a left operand gets its zero. -/
theorem supplyZerosAfter_sign {last : Option Kind} (h : lacksOperand last = true)
    (sign : Option Sign) {ts us : List Token}
    (hts : ∀ last, supplyZerosAfter last ts = us) :
    supplyZerosAfter last (Sign.tokens false sign ++ ts) = Sign.tokens true sign ++ us := by
  cases sign with
  | none => exact hts last
  | some s =>
    have hsign : (Operator.ofSign s).token.isSign = true := by cases s <;> rfl
    have hcons : Sign.tokens false (some s) ++ ts = (Operator.ofSign s).token :: ts := rfl
    rw [hcons, supplyZerosAfter, hsign, h, hts]
    rfl

end Token

open Token (supplyZerosAfter lacksOperand)

mutual

/-- Supplying zeros writes a syntax tree with its zeros, if a sign at its start has no left
    operand; an operand has no sign at its start. -/
theorem Operand.supplyZerosAfter_tokens : ∀ (a : Operand) (last : Option Kind) (rest : List Token),
    supplyZerosAfter last (a.tokens false ++ rest) =
      a.tokens true ++ supplyZerosAfter (some a.endKind) rest
  | .number s, _, _ => rfl
  | .literal q s, _, _ => by cases q <;> rfl
  | .reference n, _, _ => rfl
  | .emptyGroup, _, _ => rfl
  | .group es, last, rest => by
    have h := es.supplyZerosAfter_tokens (some .openBracket) rfl (.rightBracket :: rest)
    simp only [Operand.tokens, List.cons_append, List.append_assoc, List.nil_append]
    rw [Token.supplyZerosAfter_cons _ _ rfl]
    exact congrArg _ h
  | .emptyCall f, _, _ => rfl
  | .call f es, last, rest => by
    have h := es.supplyZerosAfter_tokens (some .openBracket) rfl (.rightBracket :: rest)
    simp only [Operand.tokens, List.cons_append, List.append_assoc, List.nil_append]
    rw [Token.supplyZerosAfter_cons _ _ rfl, Token.supplyZerosAfter_cons _ _ rfl]
    exact congrArg _ (congrArg _ h)

theorem Phrase.supplyZerosAfter_tokens : ∀ (e : Phrase) (last : Option Kind),
    lacksOperand last = true → ∀ rest : List Token,
      supplyZerosAfter last (e.tokens false ++ rest) =
        e.tokens true ++ supplyZerosAfter (some e.endKind) rest
  | .single sign a, last, h, rest => by
    have ha := fun last => a.supplyZerosAfter_tokens last rest
    rw [Phrase.tokens, Phrase.tokens, List.append_assoc, List.append_assoc]
    exact Token.supplyZerosAfter_sign h sign ha
  | .joined sign a o e, last, h, rest => by
    have he := e.supplyZerosAfter_tokens (some .operator) rfl rest
    have ha : ∀ last, supplyZerosAfter last (a.tokens false ++ (o.token :: e.tokens false ++ rest)) =
        a.tokens true ++ (o.token :: e.tokens true ++ supplyZerosAfter (some e.endKind) rest) := by
      intro last
      rw [a.supplyZerosAfter_tokens, List.cons_append,
        Token.supplyZerosAfter_operator a.endsValue_endKind, he, List.cons_append]
    simp only [Phrase.tokens, List.append_assoc]
    exact Token.supplyZerosAfter_sign h sign ha

theorem Phrases.supplyZerosAfter_tokens : ∀ (es : Phrases) (last : Option Kind),
    lacksOperand last = true → ∀ rest : List Token,
      supplyZerosAfter last (es.tokens false ++ rest) =
        es.tokens true ++ supplyZerosAfter (some es.endKind) rest
  | .one e, last, h, rest => e.supplyZerosAfter_tokens last h rest
  | .more e es, last, h, rest => by
    -- Behind a comma a sign has no left operand either.
    have hes := es.supplyZerosAfter_tokens (some .comma) rfl rest
    rw [Phrases.tokens, Phrases.tokens, List.append_assoc, e.supplyZerosAfter_tokens last h,
      List.cons_append, Token.supplyZerosAfter_cons _ _ rfl, List.append_assoc]
    exact congrArg _ (congrArg _ hes)

end

/-- A phrase with its zeros. -/
theorem Phrase.supplyZeros_tokens (e : Phrase) :
    Token.supplyZeros (e.tokens false) = e.tokens true := by
  have h := e.supplyZerosAfter_tokens none rfl []
  rwa [List.append_nil, supplyZerosAfter, List.append_nil] at h

namespace Token

/-- Blanks make no difference to the zeros. -/
theorem significant_supplyZerosAfter (last : Option Kind) (ts : List Token) :
    significant (supplyZerosAfter last ts) = supplyZerosAfter last (significant ts) := by
  induction ts generalizing last with
  | nil => rfl
  | cons t ts ih =>
    rw [significant_cons]
    by_cases hb : t.isBlank = true
    · have hk : t.kind = .blank := of_decide_eq_true hb
      have hsign : t.isSign = false := by simp [isSign, hk]
      rw [if_pos hb, supplyZerosAfter_cons _ _ hsign, significant_cons, if_pos hb, ih, lastKind,
        if_pos hb]
    · simp only [supplyZerosAfter, if_neg hb]
      -- With or without a zero, the token itself comes next.
      split
      · have hzero : zero.isBlank = false := rfl
        rw [significant_cons, hzero, if_neg Bool.false_ne_true, significant_cons, if_neg hb, ih]
      · rw [significant_cons, if_neg hb, ih]

/-- A ranking depends on operators and commas only. -/
theorem ranking_eq_of_any {ts us : List Token}
    (h : ∀ p : Token → Bool, (∀ t, p t = true → t.kind = .operator ∨ t.kind = .comma) →
      ts.any p = us.any p) : Ranking.ofTokens ts = Ranking.ofTokens us := by
  have hgroup (p : Precedence) : (ts.any fun t => t.precedence? = some p) =
      us.any fun t => t.precedence? = some p := by
    apply h
    intro t ht
    by_cases hk : t.kind = .operator
    · exact .inl hk
    · simp [precedence?, hk] at ht
  have hcomma : (ts.any fun t => t.kind = .comma) = us.any fun t => t.kind = .comma :=
    h _ fun t ht => .inr (of_decide_eq_true ht)
  simp only [Ranking.ofTokens, hgroup, hcomma]

/-- Blanks make no difference to the ranking. -/
theorem ranking_significant (ts : List Token) :
    Ranking.ofTokens (significant ts) = Ranking.ofTokens ts := by
  apply ranking_eq_of_any
  intro p hp
  have hblank (t : Token) : (!t.isBlank && p t) = p t := by
    cases hpt : p t with
    | false => exact Bool.and_false _
    | true => rcases hp t hpt with hk | hk <;> simp [isBlank, hk]
  simp only [significant, List.any_filter, hblank]

/-- Zeros make no difference to the ranking. -/
theorem ranking_supplyZeros (ts : List Token) :
    Ranking.ofTokens (supplyZeros ts) = Ranking.ofTokens ts := by
  apply ranking_eq_of_any
  intro p hp
  have hzero : p zero = false := by
    apply Bool.eq_false_iff.mpr
    intro ht
    exact absurd (hp zero ht) (by decide)
  have hany (us : List Token) : us.any p = (us.filter p).any p := by
    simp only [List.any_filter, Bool.and_self]
  rw [hany, supplyZeros, filter_supplyZerosAfter hzero, ← hany]

/-- The builder sees no blanks. -/
theorem encoded_significant (r : Ranking) (ts : List Token) :
    encoded r (significant ts) = encoded r ts := by
  induction ts with
  | nil => rfl
  | cons t ts ih =>
    rw [significant_cons]
    split
    · rename_i hb
      have hk : t.kind = .blank := of_decide_eq_true hb
      have hrow : (bracketedBy r t).filter matters = [] := by
        rw [bracketedBy_of_rank (by simp [Ranking.rank, hk]) (by simp [hk]) (by simp [hk])]
        simp [matters, hk]
      rw [encoded_cons, hrow, List.nil_append, ih]
    · rw [encoded_cons, encoded_cons, ih]

end Token

/-! ## The tree of a formula -/

/-- What the builder is given for a token list. -/
theorem Expr.ofTokens_bracketed {ts us : List Token} (h : Token.significant ts = us)
    {r : Ranking} (hr : Ranking.ofTokens us = r) :
    Expr.ofTokens (Token.bracketed ts) =
      (let b := Builder.empty.read (opening r.levels ++ (Token.encoded r us ++ closing r.levels))
       Builder.finish b.items b.outer) := by
  subst h hr
  rw [Token.encoded_significant, Token.ranking_significant]
  simp [Expr.ofTokens, Token.bracketed, Token.encoded]

/-- **Phrase.** A phrase with any blanks between its tokens is read as its tree. -/
theorem Phrase.ofTokens_bracketed (e : Phrase) {ts : List Token}
    (h : Token.significant ts = e.tokens false) {r : Ranking}
    (hr : Ranking.ofTokens (e.tokens true) = r) :
    Expr.ofTokens (Token.bracketed (Token.supplyZeros ts)) = [e.tree r r.levels] := by
  have hsig : Token.significant (Token.supplyZeros ts) = e.tokens true := by
    rw [Token.supplyZeros, Token.significant_supplyZerosAfter, h]
    exact e.supplyZeros_tokens
  have hranks : r.Ranks (e.tokens true) := hr ▸ Ranking.ranks_ofTokens (e.tokens true)
  have hread := (Phrase.readsItems hranks (e.readsAs_operands hranks) (n := r.levels)
    (Nat.le_succ_of_le r.length_groups_le_levels)).read Items.settled_nil [] []
  rw [List.append_nil] at hread
  rw [Expr.ofTokens_bracketed hsig hr, Builder.empty, hread]
  rfl

end Formulary
