/-
  Formulary.Proofs.SignedOperands

  What a sign behind an operator applies to.

  A sign without a left operand gets a zero, and the zero is an operand like any other: in
  `a * 0 - b` the tighter operator takes it. So `a * -b` is read as `(a * 0) - b`, and only
  behind a comparison, which is looser than every sign, does a sign belong to what follows
  it (`value_signed`). The formula is accepted in both cases.
-/

import Formulary.Proofs.Acceptance
import Formulary.Proofs.Joining
import Formulary.Proofs.Meaning

namespace Formulary

open Token (significant)

/-! ## Formulas with a sign behind an operator -/

/-- `a o s b`: a sign behind an operator. -/
def signed (a : String) (o : Operator) (s : Sign) (b : String) : String :=
  a ++ " " ++ o.symbol ++ " " ++ (Operator.ofSign s).symbol ++ b

/-- `a o (s b)`: the sign belongs to what follows it. -/
def signedRight (a : String) (o : Operator) (s : Sign) (b : String) : String :=
  a ++ " " ++ o.symbol ++ " (" ++ (Operator.ofSign s).symbol ++ b ++ ")"

/-- `(a o 0) s b`: the operator takes the zero that the sign gets. -/
def signedLeft (a : String) (o : Operator) (s : Sign) (b : String) : String :=
  "(" ++ a ++ " " ++ o.symbol ++ " 0) " ++ (Operator.ofSign s).symbol ++ " " ++ b

/-- The phrases that these formulas are. -/
def signedPhrase (a : Operand) (o : Operator) (s : Sign) (b : Operand) : Phrase :=
  .joined none a o (.single (some s) b)

def signedRightPhrase (a : Operand) (o : Operator) (s : Sign) (b : Operand) : Phrase :=
  .joined none a o (.single none (.group (.one (.single (some s) b))))

def signedLeftPhrase (a : Operand) (o : Operator) (s : Sign) (b : Operand) : Phrase :=
  .joined none (.group (.one (.joined none a o (.single none (.number "0")))))
    (.ofSign s) (.single none b)

/-- The last token of an operand. -/
theorem Operand.getLast?_tokens (a : Operand) :
    ∃ t, (a.tokens false).getLast? = some t ∧ t.kind = a.endKind := by
  cases a with
  | number s => exact ⟨_, rfl, rfl⟩
  | literal q s => exact ⟨_, rfl, rfl⟩
  | reference n => exact ⟨_, rfl, rfl⟩
  | emptyGroup => exact ⟨_, rfl, rfl⟩
  | emptyCall f => exact ⟨_, rfl, rfl⟩
  | group es =>
    refine ⟨.rightBracket, ?_, rfl⟩
    rw [Operand.tokens, ← List.cons_append]
    exact List.getLast?_concat
  | call f es =>
    refine ⟨.rightBracket, ?_, rfl⟩
    rw [Operand.tokens, ← List.cons_append, ← List.cons_append]
    exact List.getLast?_concat

namespace Scan

/-! ## Texts of operands -/

variable {last : Option Kind} {s : String} {a : Operand} {v : List Char}

/-- An operand and what stands behind it. -/
theorem significant_operand (hs : significant (tokenize s) = a.tokens false) (hlast : Fresh last)
    (hv : Detached [] v) :
    significant (tokensAfter last (s.toList ++ v)) =
      a.tokens false ++ significant (tokensAfter (some a.endKind) v) := by
  obtain ⟨t, ht, hk⟩ := Operand.getLast?_tokens a
  rw [← hs] at ht
  have hends : t.kind.endsValue = true := hk ▸ a.endsValue_endKind
  rw [tokensAfter_fresh hlast fresh_none, significant_append_text ht hends hv, hs, hk]

/-- An operand at the end. -/
theorem significant_lastOperand (hs : significant (tokenize s) = a.tokens false)
    (hlast : Fresh last) : significant (tokensAfter last s.toList) = a.tokens false := by
  rw [tokensAfter_fresh hlast fresh_none]
  exact hs

/-- An operand that is no number has no numeral at its start. -/
theorem numeralLength_operand (hs : significant (tokenize s) = a.tokens false)
    (ha : ∀ n, a ≠ .number n) : numeralLength s.toList = 0 := by
  by_contra hne
  have hpos : 0 < numeralLength s.toList := Nat.pos_of_ne_zero hne
  rw [tokenize] at hs
  cases hcs : s.toList with
  | nil =>
    rw [hcs] at hpos
    exact absurd hpos (by decide)
  | cons c cs =>
    rw [hcs] at hs hpos
    have hquote (q : Quote) : c ≠ q.mark := by
      rintro rfl
      rw [numeralLength_of_not_isDigit cs (by cases q <;> decide) (by cases q <;> decide)] at hpos
      exact Nat.lt_irrefl 0 hpos
    -- The numeral would be the first token, but no other operand starts with a number.
    have hrule : Rule none c cs .number (numeralLength (c :: cs) - 1) :=
      .plain hquote fresh_none.ne_opening (.numeral hpos)
    have hk : Kind.number ≠ .blank := by decide
    rw [tokensAfter_cons hrule.lexeme_eq rfl, significant_cons_of_ne _ hk] at hs
    cases a with
    | number n => exact ha n rfl
    | literal q _ => cases q <;> simp [Operand.tokens, Quote.opening] at hs
    | _ => simp [Operand.tokens, Token.leftBrace, Token.leftBracket] at hs

/-! ## Tokens of the formulas -/

/-- An operator with blanks around it goes on neither a numeral nor a word. -/
theorem detached_operator (o : Operator) (cs : List Char) :
    Detached [] (' ' :: (o.symbol.toList ++ ' ' :: cs)) :=
  .of_isBlank (by decide) (by cases o <;> rfl)

theorem detached_rightBracket (cs : List Char) : Detached [] (')' :: cs) :=
  .of_cons rfl (by decide) rfl

variable {sa sb : String} {a b : Operand}

/-- An operand, an operator and what stands behind it. -/
theorem significant_operand_operator (ha : significant (tokenize sa) = a.tokens false)
    (hlast : Fresh last) (o : Operator) (cs : List Char) :
    significant (tokensAfter last (sa.toList ++ ' ' :: (o.symbol.toList ++ ' ' :: cs))) =
      a.tokens false ++ o.token :: significant (tokensAfter (some .operator) cs) := by
  have hend : NothingOpen (some a.endKind) := nothingOpen_of_endsValue a.endsValue_endKind
  rw [significant_operand ha hlast (detached_operator o cs), significant_blank hend,
    significant_operator hend]

theorem significant_signed (ha : significant (tokenize sa) = a.tokens false)
    (hb : significant (tokenize sb) = b.tokens false) (hnumber : ∀ n, b ≠ .number n)
    (o : Operator) (s : Sign) :
    significant (tokenize (signed sa o s sb)) = (signedPhrase a o s b).tokens false := by
  have htext : (signed sa o s sb).toList = sa.toList ++
      ' ' :: (o.symbol.toList ++ ' ' :: ((Operator.ofSign s).symbol.toList ++ sb.toList)) := by
    simp [signed]
  rw [tokenize, htext, significant_operand_operator ha fresh_none,
    significant_sign fresh_operator.nothingOpen s (numeralLength_operand hb hnumber),
    significant_lastOperand hb fresh_operator]
  simp [signedPhrase, Phrase.tokens, Sign.tokens]

theorem significant_signedRight (ha : significant (tokenize sa) = a.tokens false)
    (hb : significant (tokenize sb) = b.tokens false) (hnumber : ∀ n, b ≠ .number n)
    (o : Operator) (s : Sign) :
    significant (tokenize (signedRight sa o s sb)) = (signedRightPhrase a o s b).tokens false := by
  have htext : (signedRight sa o s sb).toList = sa.toList ++ ' ' :: (o.symbol.toList ++
      ' ' :: ('(' :: ((Operator.ofSign s).symbol.toList ++ (sb.toList ++ [')'])))) := by
    simp [signedRight]
  -- No numeral stands behind the sign, so it is not read as the sign of one.
  have hnumeral : numeralLength (sb.toList ++ [')']) = 0 := by
    have hzero : numeralLength (sb.toList ++ []) = 0 := by
      rw [List.append_nil]
      exact numeralLength_operand hb hnumber
    rw [(detached_rightBracket []).numeralLength_append (hzero.trans_le (Nat.zero_le _)), hzero]
  have hopen := significant_mark fresh_operator.nothingOpen (c := '(') (k := .openBracket)
    (by decide) ((Operator.ofSign s).symbol.toList ++ (sb.toList ++ [')']))
  have hclose := significant_mark (nothingOpen_of_endsValue b.endsValue_endKind) (c := ')')
    (k := .closeBracket) (by decide) []
  rw [tokenize, htext, significant_operand_operator ha fresh_none, hopen,
    significant_sign fresh_openBracket.nothingOpen s hnumeral,
    significant_operand hb fresh_operator (detached_rightBracket []), hclose, tokensAfter]
  simp [signedRightPhrase, Phrase.tokens, Phrases.tokens, Operand.tokens, Sign.tokens, significant,
    Token.leftBracket, Token.rightBracket]

theorem significant_signedLeft (ha : significant (tokenize sa) = a.tokens false)
    (hb : significant (tokenize sb) = b.tokens false) (o : Operator) (s : Sign) :
    significant (tokenize (signedLeft sa o s sb)) = (signedLeftPhrase a o s b).tokens false := by
  have htext : (signedLeft sa o s sb).toList = '(' :: (sa.toList ++ ' ' :: (o.symbol.toList ++
      ' ' :: ('0' :: ')' :: ' ' :: ((Operator.ofSign s).symbol.toList ++ ' ' :: sb.toList)))) := by
    simp [signedLeft]
  have hclosed : NothingOpen (some .closeBracket) := nothingOpen_of_endsValue rfl
  have hopen := significant_mark fresh_none.nothingOpen (c := '(') (k := .openBracket) (by decide)
    (sa.toList ++ ' ' :: (o.symbol.toList ++ ' ' ::
      ('0' :: ')' :: ' ' :: ((Operator.ofSign s).symbol.toList ++ ' ' :: sb.toList))))
  rw [tokenize, htext, hopen, significant_operand_operator ha fresh_openBracket,
    significant_zero fresh_operator.nothingOpen, significant_blank hclosed,
    significant_operator hclosed, significant_lastOperand hb fresh_operator]
  simp [signedLeftPhrase, Phrase.tokens, Phrases.tokens, Operand.tokens, Sign.tokens,
    Token.leftBracket, Token.rightBracket, Token.zero]

end Scan

/-! ## Values -/

/-- Only a comparison is looser than a sign behind it. -/
theorem Chain.eval_climb_sign {α : Type} (apply : Operator → α → α → α) (x zero y : α)
    (o : Operator) (s : Sign) :
    (Chain.mk x [(o, zero), (.ofSign s, y)]).climb.eval apply =
      if o.precedence = .comparison then apply o x (apply (.ofSign s) zero y)
      else apply (.ofSign s) (apply o x zero) y := by
  cases o <;> cases s <;> rfl

section Values

variable (look : String → String) (r : Ranking) (n : Nat) (a : Operand) (o : Operator) (s : Sign)
  (b : Operand)

/-- The value of an operand under a ranking. -/
def Operand.treeValue : String := Expr.value look [a.tree r]

theorem Phrase.value_tree (e : Phrase) : Expr.value look [e.tree r n] =
    ((e.trees r).map fun x => Expr.value look [x]).climb.eval Operator.apply :=
  Phrase.value_grouped rfl n

theorem value_signedPhrase :
    Expr.value look [(signedPhrase a o s b).tree r n] =
      if o.precedence = .comparison then
        o.apply (a.treeValue look r) ((Operator.ofSign s).apply "0" (b.treeValue look r))
      else (Operator.ofSign s).apply (o.apply (a.treeValue look r) "0") (b.treeValue look r) := by
  have hchain : ((signedPhrase a o s b).trees r).map (fun x => Expr.value look [x]) =
      ⟨a.treeValue look r, [(o, "0"), (.ofSign s, b.treeValue look r)]⟩ := by
    simp [signedPhrase, Phrase.trees, Chain.signed, Chain.behind, Chain.map, Operand.treeValue]
  rw [Phrase.value_tree, hchain, Chain.eval_climb_sign]

theorem value_signedRightPhrase :
    Expr.value look [(signedRightPhrase a o s b).tree r n] =
      o.apply (a.treeValue look r) ((Operator.ofSign s).apply "0" (b.treeValue look r)) := by
  have hgroup : Expr.value look [(Operand.group (.one (.single (some s) b))).tree r] =
      (Operator.ofSign s).apply "0" (b.treeValue look r) := by
    have hinner : ((Phrase.single (some s) b).trees r).map (fun x => Expr.value look [x]) =
        ⟨"0", [(.ofSign s, b.treeValue look r)]⟩ := by
      simp [Phrase.trees, Chain.signed, Chain.map, Operand.treeValue]
    rw [Operand.tree, Expr.value_group, Phrases.trees, Phrase.value_grouped hinner]
    rfl
  have hchain : ((signedRightPhrase a o s b).trees r).map (fun x => Expr.value look [x]) =
      ⟨a.treeValue look r, [(o, (Operator.ofSign s).apply "0" (b.treeValue look r))]⟩ := by
    rw [← hgroup]
    rfl
  rw [Phrase.value_tree, hchain]
  rfl

theorem value_signedLeftPhrase :
    Expr.value look [(signedLeftPhrase a o s b).tree r n] =
      (Operator.ofSign s).apply (o.apply (a.treeValue look r) "0") (b.treeValue look r) := by
  have hgroup : Expr.value look
      [(Operand.group (.one (.joined none a o (.single none (.number "0"))))).tree r] =
      o.apply (a.treeValue look r) "0" := by
    have hinner : ((Phrase.joined none a o (.single none (.number "0"))).trees r).map
        (fun x => Expr.value look [x]) = ⟨a.treeValue look r, [(o, "0")]⟩ := by
      simp [Phrase.trees, Operand.tree, Chain.signed, Chain.behind, Chain.map, Operand.treeValue]
    rw [Operand.tree, Expr.value_group, Phrases.trees, Phrase.value_grouped hinner]
    rfl
  have hchain : ((signedLeftPhrase a o s b).trees r).map (fun x => Expr.value look [x]) =
      ⟨o.apply (a.treeValue look r) "0", [(.ofSign s, b.treeValue look r)]⟩ := by
    rw [← hgroup]
    rfl
  rw [Phrase.value_tree, hchain]
  rfl

end Values

/-! ## Rankings -/

/-- The three formulas rank the same operators. -/
theorem ranking_signedPhrase (a : Operand) (o : Operator) (s : Sign) (b : Operand) :
    Ranking.ofTokens ((signedRightPhrase a o s b).tokens true) =
        Ranking.ofTokens ((signedPhrase a o s b).tokens true) ∧
      Ranking.ofTokens ((signedLeftPhrase a o s b).tokens true) =
        Ranking.ofTokens ((signedPhrase a o s b).tokens true) := by
  have hother {p : Token → Bool} (hp : ∀ t, p t = true → t.kind = .operator ∨ t.kind = .comma)
      {t : Token} (ht : t.kind ≠ .operator ∧ t.kind ≠ .comma) : p t = false := by
    refine Bool.eq_false_iff.mpr fun h => ?_
    rcases hp t h with hk | hk
    · exact ht.1 hk
    · exact ht.2 hk
  -- Only operators and separators are ranked, so zeros and brackets do not count.
  constructor <;> refine Token.ranking_eq_of_any fun p hp => ?_
  all_goals
    have hzero : p .zero = false := hother hp (by decide)
    have hleft : p .leftBracket = false := hother hp (by decide)
    have hright : p .rightBracket = false := hother hp (by decide)
  · simp [signedRightPhrase, signedPhrase, Phrase.tokens, Operand.tokens, Phrases.tokens,
      Sign.tokens, hzero, hleft, hright]
  · have hnumber : p ⟨.number, "0"⟩ = false := hzero
    simp [signedLeftPhrase, signedPhrase, Phrase.tokens, Operand.tokens, Phrases.tokens,
      Sign.tokens, hzero, hleft, hright, hnumber]

/-! ## Signed operands -/

/-- A text that is an operand, with blanks or without, and has no fault. -/
structure OperandText (allowed : Option (List String)) (text : String) (a : Operand) : Prop where
  tokens : significant (tokenize text) = a.tokens false
  accepted : Fault.check allowed (tokenize text) = []

theorem OperandText.admissible {allowed : Option (List String)} {text : String} {a : Operand}
    (h : OperandText allowed text a) : a.Admissible allowed false :=
  ((Phrase.single none a).check_eq_nil_iff h.tokens).mp h.accepted

/-- The value of a formula that is a phrase. -/
theorem value_ofFormula_phrase (look : String → String) {formula : String} {e : Phrase}
    (h : significant (tokenize formula) = e.tokens false) {r : Ranking}
    (hr : Ranking.ofTokens (e.tokens true) = r) :
    Expr.value look (Expr.ofFormula formula) = Expr.value look [e.tree r r.levels] := by
  rw [Expr.ofFormula, e.ofTokens_bracketed h hr]

/-- **Signed operands.** Two operands with an operator and a sign between them are found without
    fault if the operands are. Behind a comparison the sign belongs to the operand that follows
    it, for every look-up. Behind any other operator it does not: the operator takes the zero
    that the sign gets, and the sign is applied to the result. -/
theorem value_signed {allowed : Option (List String)} {left right : String} {a b : Operand}
    (ha : OperandText allowed left a) (hb : OperandText allowed right b)
    (hnumber : ∀ n, b ≠ .number n) (o : Operator) (s : Sign) :
    Fault.check allowed (tokenize (signed left o s right)) = [] ∧
    (o.precedence = .comparison → ∀ look, Expr.value look (Expr.ofFormula (signed left o s right)) =
      Expr.value look (Expr.ofFormula (signedRight left o s right))) ∧
    (o.precedence ≠ .comparison → ∀ look, Expr.value look (Expr.ofFormula (signed left o s right)) =
      Expr.value look (Expr.ofFormula (signedLeft left o s right))) := by
  have hsigned := Scan.significant_signed ha.tokens hb.tokens hnumber o s
  have hright := Scan.significant_signedRight ha.tokens hb.tokens hnumber o s
  have hleft := Scan.significant_signedLeft ha.tokens hb.tokens o s
  -- Trees of different formulas can be compared because their rankings are the same.
  obtain ⟨hrankRight, hrankLeft⟩ := ranking_signedPhrase a o s b
  refine ⟨((signedPhrase a o s b).check_eq_nil_iff hsigned).mpr ⟨ha.admissible, hb.admissible⟩,
    fun ho look => ?_, fun ho look => ?_⟩
  · rw [value_ofFormula_phrase look hsigned rfl, value_ofFormula_phrase look hright hrankRight,
      value_signedPhrase, value_signedRightPhrase, if_pos ho]
  · rw [value_ofFormula_phrase look hsigned rfl, value_ofFormula_phrase look hleft hrankLeft,
      value_signedPhrase, value_signedLeftPhrase, if_neg ho]

/-- A product with a negative call, and the difference that is computed instead. -/
theorem value_signed_product :
    OperandText none "\x7ba\x7d" (.reference "a") ∧
    Fault.check none (tokenize "\x7ba\x7d * -max(\x7bb\x7d)") = [] ∧
    Expr.value (fun n => if n = "a" then "2" else "3")
        (Expr.ofFormula "\x7ba\x7d * -max(\x7bb\x7d)") =
      Expr.value (fun n => if n = "a" then "2" else "3")
        (Expr.ofFormula "(\x7ba\x7d * 0) - max(\x7bb\x7d)") := by
  have ha : OperandText none "\x7ba\x7d" (.reference "a") := ⟨by decide +kernel, by decide +kernel⟩
  have hb : OperandText none "max(\x7bb\x7d)"
      (.call "max" (.one (.single none (.reference "b")))) :=
    ⟨by decide +kernel, by decide +kernel⟩
  obtain ⟨hcheck, -, hvalue⟩ := value_signed ha hb nofun .times .minus
  exact ⟨ha, hcheck, hvalue (by decide) _⟩

/-- Two times minus three. -/
theorem value_signed_ne :
    Fault.check none (tokenize "\x7ba\x7d * -\x7bb\x7d") = [] ∧
    Expr.value (fun n => if n = "a" then "2" else "3") (Expr.ofFormula "\x7ba\x7d * -\x7bb\x7d") =
      "-3" ∧
    Expr.value (fun n => if n = "a" then "2" else "3")
      (Expr.ofFormula "\x7ba\x7d * (-\x7bb\x7d)") = "-6" := by
  refine ⟨?_, ?_, ?_⟩ <;> decide +kernel

end Formulary
