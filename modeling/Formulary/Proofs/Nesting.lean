/-
  Formulary.Proofs.Nesting

  How deep a token stands among the brackets for precedence.

  `balance` counts the brackets of a token list, an opening one as one and a closing one as minus
  one, and `nested` lists the other tokens, each with the balance in front of it. Neither asks that
  the brackets match, and a depth may be negative.

  What stands for a token closes and opens again as many levels as its rank, so the depth behind it
  is the depth in front of it, but for a written bracket, which counts `weight` times
  (`balance_bracketedBy`). By induction on the tokens every depth is `weight` times the old one,
  less the rank of the token, above the levels around all of them (`nested_flatMap`).

  Levels and ranks are those of the groups of operators that occur in the list (`groups_ofTokens`,
  `levels_ofTokens`, `rank_ofTokens`), so `nested_bracketed` gives the depths from the tokens alone.
-/

import Formulary.Proofs.Encoding
import Formulary.Proofs.Leaves

namespace Formulary

namespace Token

/-! ## Depths -/

/-- Whether a token is a bracket. -/
def isBracket (t : Token) : Bool := t.kind = .openBracket || t.kind = .closeBracket

/-- One for an opening bracket, minus one for a closing one. -/
def level (t : Token) : Int :=
  if t.kind = .openBracket then 1 else if t.kind = .closeBracket then -1 else 0

/-- The number of opening brackets less that of closing ones. -/
def balance (ts : List Token) : Int := (ts.map level).sum

/-- The tokens that are no brackets, each with the balance of what stands in front of it, for
    tokens at a depth. -/
def nested (depth : Int) : List Token → List (Token × Int)
  | [] => []
  | t :: ts =>
    if t.isBracket then nested (depth + t.level) ts else (t, depth) :: nested depth ts

@[simp] theorem balance_nil : balance [] = 0 := rfl

@[simp] theorem balance_cons (t : Token) (ts : List Token) :
    balance (t :: ts) = t.level + balance ts := by
  simp [balance]

@[simp] theorem balance_append (ts us : List Token) :
    balance (ts ++ us) = balance ts + balance us := by
  simp [balance]

@[simp] theorem balance_opening (n : Nat) : balance (opening n) = n := by
  simp [balance, opening, level]

@[simp] theorem balance_closing (n : Nat) : balance (closing n) = -n := by
  simp [balance, closing, level]

theorem level_of_not_isBracket {t : Token} (h : t.isBracket = false) : t.level = 0 := by
  simp only [isBracket, Bool.or_eq_false_iff, decide_eq_false_iff_not] at h
  rw [level, if_neg h.1, if_neg h.2]

theorem nested_append (depth : Int) (ts us : List Token) :
    nested depth (ts ++ us) = nested depth ts ++ nested (depth + balance ts) us := by
  induction ts generalizing depth with
  | nil => simp [nested]
  | cons t ts ih =>
    rw [List.cons_append, nested, nested, balance_cons]
    split
    · rw [ih, Int.add_assoc]
    · next h =>
      rw [ih, level_of_not_isBracket (Bool.eq_false_iff.mpr h), zero_add, List.cons_append]

theorem nested_of_brackets {ts : List Token} (h : ∀ t ∈ ts, t.isBracket = true) (depth : Int) :
    nested depth ts = [] := by
  induction ts generalizing depth with
  | nil => rfl
  | cons t ts ih =>
    rw [nested, if_pos (h t List.mem_cons_self), ih fun u hu => h u (List.mem_cons_of_mem t hu)]

@[simp] theorem nested_opening (depth : Int) (n : Nat) : nested depth (opening n) = [] :=
  nested_of_brackets (fun _ ht => by rw [List.eq_of_mem_replicate ht]; rfl) depth

@[simp] theorem nested_closing (depth : Int) (n : Nat) : nested depth (closing n) = [] :=
  nested_of_brackets (fun _ ht => by rw [List.eq_of_mem_replicate ht]; rfl) depth

theorem mem_of_mem_nested {depth : Int} {ts : List Token} {p : Token × Int}
    (h : p ∈ nested depth ts) : p.1 ∈ ts := by
  induction ts generalizing depth with
  | nil => exact nomatch h
  | cons t ts ih =>
    rw [nested] at h
    split at h
    · exact List.mem_cons_of_mem t (ih h)
    · rcases List.mem_cons.mp h with rfl | h
      · exact List.mem_cons_self
      · exact List.mem_cons_of_mem t (ih h)

/-! ## One token -/

theorem bracketedBy_of_not_isBracket (r : Ranking) {t : Token} (h : t.isBracket = false) :
    bracketedBy r t = closing (r.rank t) ++ t :: opening (r.rank t) := by
  simp only [isBracket, Bool.or_eq_false_iff, decide_eq_false_iff_not] at h
  unfold bracketedBy
  split
  · next hk => exact absurd hk h.1
  · next hk => exact absurd hk h.2
  · rfl

/-- Behind what stands for a token the depth has changed by that of the token, `weight` times. -/
theorem balance_bracketedBy (r : Ranking) (t : Token) :
    balance (bracketedBy r t) = r.weight * t.level := by
  by_cases h : t.isBracket = true
  · simp only [isBracket, Bool.or_eq_true, decide_eq_true_eq] at h
    rcases h with h | h <;> simp [bracketedBy, level, h]
  · have hbracket := Bool.eq_false_iff.mpr h
    rw [bracketedBy_of_not_isBracket r hbracket, balance_append, balance_cons, balance_closing,
      balance_opening, level_of_not_isBracket hbracket]
    omega

theorem nested_bracketedBy (r : Ranking) (depth : Int) (t : Token) :
    nested depth (bracketedBy r t) = if t.isBracket then [] else [(t, depth - r.rank t)] := by
  by_cases h : t.isBracket = true
  · rw [if_pos h]
    simp only [isBracket, Bool.or_eq_true, decide_eq_true_eq] at h
    rcases h with h | h <;> simp [bracketedBy, h]
  · have hbracket := Bool.eq_false_iff.mpr h
    rw [bracketedBy_of_not_isBracket r hbracket, nested_append, nested_closing, balance_closing,
      List.nil_append, nested, if_neg h, if_neg h, nested_opening, Int.sub_eq_add_neg]

/-! ## Token lists -/

theorem balance_flatMap (r : Ranking) (ts : List Token) :
    balance (ts.flatMap (bracketedBy r)) = r.weight * balance ts := by
  induction ts with
  | nil => simp
  | cons t ts ih =>
    rw [List.flatMap_cons, balance_append, balance_bracketedBy, ih, balance_cons, Int.mul_add]

/-- Where the brackets have brought the tokens to a depth, those put in for them have brought them
    to `weight` times that depth, above the levels around all. -/
theorem nested_flatMap (r : Ranking) (outer depth : Int) (ts : List Token) :
    nested (outer + r.weight * depth) (ts.flatMap (bracketedBy r)) =
      (nested depth ts).map fun p => (p.1, outer + r.weight * p.2 - r.rank p.1) := by
  induction ts generalizing depth with
  | nil => rfl
  | cons t ts ih =>
    have hdepth : outer + r.weight * depth + r.weight * t.level =
        outer + r.weight * (depth + t.level) := by
      rw [Int.mul_add, Int.add_assoc]
    rw [List.flatMap_cons, nested_append, nested_bracketedBy, balance_bracketedBy, hdepth, ih,
      nested]
    split
    · rw [List.nil_append]
    · next h =>
      rw [level_of_not_isBracket (Bool.eq_false_iff.mpr h), add_zero, List.singleton_append,
        List.map_cons]

/-- The brackets around the whole list cancel out. -/
theorem balance_bracketed (ts : List Token) :
    balance (bracketed ts) = (Ranking.ofTokens ts).weight * balance ts := by
  rw [bracketed, balance_append, balance_append, balance_opening, balance_closing, balance_flatMap]
  omega

theorem depths_bracketed (ts : List Token) :
    nested 0 (bracketed ts) = (nested 0 ts).map fun p =>
      (p.1, ((Ranking.ofTokens ts).levels : Int) + (Ranking.ofTokens ts).weight * p.2 -
        (Ranking.ofTokens ts).rank p.1) := by
  have hinner := nested_flatMap (Ranking.ofTokens ts) (Ranking.ofTokens ts).levels 0 ts
  rw [mul_zero, add_zero] at hinner
  rw [bracketed, List.append_assoc, nested_append, nested_append, nested_opening, nested_closing,
    balance_opening, List.nil_append, List.append_nil, zero_add, hinner]

/-! ## Ranks in terms of the tokens -/

/-- The groups are those that an operator token of the list belongs to. -/
theorem groups_ofTokens (ts : List Token) :
    (Ranking.ofTokens ts).groups = Precedence.all.filter fun p =>
      ∃ t ∈ ts, t.kind = .operator ∧ Precedence.ofSymbol? t.text = some p := by
  refine List.filter_congr fun p _ => Bool.eq_iff_iff.mpr ?_
  simp only [List.any_eq_true, decide_eq_true_eq, precedence?, Option.ite_none_right_eq_some]

/-- There is a level for each group, and one more for commas. -/
theorem levels_ofTokens (ts : List Token) :
    (Ranking.ofTokens ts).levels =
      (Ranking.ofTokens ts).groups.length + if ∃ t ∈ ts, t.kind = .comma then 1 else 0 := by
  simp only [Ranking.levels, Ranking.ofTokens, List.any_eq_true, decide_eq_true_eq]

/-- The rank of a token of the list is the place of its group among the groups that occur, and the
    number of these groups for a comma. -/
theorem rank_ofTokens {ts : List Token} {t : Token} (h : t ∈ ts) :
    (Ranking.ofTokens ts).rank t =
      if t.kind = .comma then (Ranking.ofTokens ts).groups.length
      else if t.kind = .operator then
        ((Precedence.ofSymbol? t.text).map (Ranking.ofTokens ts).groups.idxOf).getD 0
      else 0 := by
  have hgroup := (Ranking.ranks_ofTokens ts).group t h
  rw [Ranking.rank]
  cases hk : t.kind with
  | operator =>
    rw [precedence?, if_pos hk] at hgroup
    cases hp : Precedence.ofSymbol? t.text with
    | none => simp
    | some p => simp [hgroup p hp]
  | _ => simp

/-- **Nesting.** With the brackets for precedence every token but the brackets is still there, and
    it stands at a depth that tells its rank. There is a level for each group of operators that
    occurs among the tokens, and one more if a comma does. The depth is the number of levels, plus
    that number (at least one) times the depth among the written brackets, less the rank: for an
    operator the place of its group, the tightest first, and for a comma the number of groups. This
    asks nothing of the written brackets, which may be unbalanced. -/
theorem nested_bracketed (ts : List Token) :
    let groups := Precedence.all.filter fun p =>
      ∃ t ∈ ts, t.kind = .operator ∧ Precedence.ofSymbol? t.text = some p
    let levels := groups.length + if ∃ t ∈ ts, t.kind = .comma then 1 else 0
    let rank (t : Token) : Nat :=
      if t.kind = .comma then groups.length
      else if t.kind = .operator then ((Precedence.ofSymbol? t.text).map groups.idxOf).getD 0
      else 0
    ((bracketed ts).filter fun t => !t.isBracket) = (ts.filter fun t => !t.isBracket) ∧
    (nested 0 (bracketed ts) =
      (nested 0 ts).map fun p => (p.1, (levels : Int) + max levels 1 * p.2 - rank p.1)) ∧
    balance (bracketed ts) = max levels 1 * balance ts := by
  intro groups levels rank
  have hgroups : (Ranking.ofTokens ts).groups = groups := groups_ofTokens ts
  have hlevels : (Ranking.ofTokens ts).levels = levels := by rw [levels_ofTokens, hgroups]
  have hweight : (Ranking.ofTokens ts).weight = max levels 1 := by rw [Ranking.weight, hlevels]
  refine ⟨filter_bracketed (fun t h => ?_) ts, ?_, ?_⟩
  · rcases h with h | h <;> simp [isBracket, h]
  · rw [depths_bracketed, hlevels, hweight]
    refine List.map_congr_left fun p hp => ?_
    rw [rank_ofTokens (mem_of_mem_nested hp), hgroups]
  · rw [balance_bracketed, hweight]

/-- A closing bracket in front of the opening one: `) 1 + 2 ( , 3`. -/
example : nested 0 (bracketed (tokenize ")1+2(,3")) =
    [(⟨.number, "1"⟩, 0), (⟨.operator, "+"⟩, 0), (⟨.number, "2"⟩, 0), (⟨.comma, ","⟩, 1),
      (⟨.number, "3"⟩, 2)] := by
  decide +kernel

end Token

end Formulary
