/-
  Formulary.Proofs.Acceptance

  The check of a formula finds nothing exactly in the formulas of the grammar.

  `Accepts` is the check as a condition on the tokens that are not blank: at each of them
  nothing is wrong, given the kinds on its two sides and what is open at it, and at the end
  nothing is open. For every kind of token one lemma says what that condition comes to.

    * A syntax tree is accepted, whatever follows it, wherever a value may start
      (`Phrase.accepts`): its brackets leave open what was open before.
    * Accepted tokens that a scan has given start with a syntax tree
      (`exists_phrase`): descending into the brackets, every token that the check lets
      through has a place in the grammar.
-/

import Formulary.Fault.Check
import Formulary.Proofs.Lexing

namespace Formulary

open Fault (needsOperator valueEnded require opens closes problems)
open Token (significant)

/-! ## Acceptance -/

variable {allowed : Option (List String)} {before : Option Kind} {opened : List Opening}
  {ts : List Token}

/-- What is open behind a token, given what is open at it, innermost first. -/
def openingsBehind (before : Option Kind) (opened : List Opening) (t : Token) : List Opening :=
  match opens before t with
  | some o => o :: opened
  | none =>
    match opened with
    | [] => []
    | o :: outer => if closes t o then outer else o :: outer

/-- The check finds nothing in tokens that are not blank. -/
def Accepts (allowed : Option (List String)) (before : Option Kind) (opened : List Opening) :
    List Token → Prop
  | [] => opened = []
  | t :: ts =>
    problems (allowed.map fun names => names.map Text.lower) before
        (ts.head?.map Token.kind) opened t = [] ∧
      Accepts allowed (some t.kind) (openingsBehind before opened t) ts

theorem accepts_nil : Accepts allowed before opened [] ↔ opened = [] := Iff.rfl

theorem accepts_cons {t : Token} :
    Accepts allowed before opened (t :: ts) ↔
      problems (allowed.map fun names => names.map Text.lower) before
          (ts.head?.map Token.kind) opened t = [] ∧
        Accepts allowed (some t.kind) (openingsBehind before opened t) ts := Iff.rfl

theorem map_opening_openBehind (before : Option Kind) (opened : List Open) (index : Nat)
    (t : Token) :
    (Fault.openBehind before opened index t).map Open.opening =
      openingsBehind before (opened.map Open.opening) t := by
  unfold Fault.openBehind openingsBehind
  cases opens before t with
  | some o => rfl
  | none =>
    cases opened with
    | nil => rfl
    | cons o outer =>
      cases h : closes t o.opening <;> simp [h]

/-- A blank changes nothing that the check looks at. -/
theorem checkFrom_blank (names : Option (List String)) (index : Nat) (before : Option Kind)
    (opened : List Open) {t : Token} (h : t.isBlank = true) (ts : List Token) :
    Fault.checkFrom names index before opened (t :: ts) =
      Fault.checkFrom names (index + 1) before opened ts := by
  have hk : t.kind = .blank := of_decide_eq_true h
  have hopen : Fault.openBehind before opened index t = opened := by
    cases opened <;> simp [Fault.openBehind, opens, closes, hk]
  rw [Fault.checkFrom, Token.lastKind, if_pos h, hopen]
  simp [problems, hk]

theorem nextKind_eq (ts : List Token) :
    Fault.nextKind ts = (significant ts).head?.map Token.kind := by
  rw [significant, List.head?_filter, Fault.nextKind]

/-- The check finds nothing exactly if it accepts the tokens that are not blank. -/
theorem checkFrom_eq_nil_iff (allowed : Option (List String)) (index : Nat)
    (before : Option Kind) (opened : List Open) (ts : List Token) :
    Fault.checkFrom (allowed.map fun names => names.map Text.lower) index before opened ts = [] ↔
      Accepts allowed before (opened.map Open.opening) (significant ts) := by
  -- The index only places the faults; whether there are any does not depend on it.
  induction ts generalizing index before opened with
  | nil => simp [Fault.checkFrom, Fault.ofUnclosed, significant, accepts_nil]
  | cons t ts ih =>
    rw [Token.significant_cons]
    by_cases hb : t.isBlank = true
    · rw [checkFrom_blank _ _ _ _ hb, if_pos hb, ih]
    · rw [if_neg hb, Fault.checkFrom, List.append_eq_nil_iff, List.map_eq_nil_iff, ih,
        map_opening_openBehind, Token.lastKind, if_neg hb, nextKind_eq, accepts_cons]

/-! ## One token -/

theorem openingsBehind_eq (before : Option Kind) (opened : List Opening) (t : Token) :
    openingsBehind before opened t =
      (opens before t).elim (if opened.head?.any (closes t) then opened.tail else opened)
        (· :: opened) := by
  unfold openingsBehind
  cases opens before t with
  | some o => rfl
  | none => cases opened <;> rfl

theorem openingsBehind_of_closes {t : Token} (ho : opens before t = none)
    (hc : ∀ o, closes t o = false) : openingsBehind before opened t = opened := by
  cases opened <;> simp [openingsBehind_eq, ho, hc]

theorem accepts_number (s : String) :
    Accepts allowed before opened (⟨.number, s⟩ :: ts) ↔
      needsOperator before = false ∧ Accepts allowed (some .number) opened ts := by
  rw [accepts_cons, openingsBehind_of_closes rfl fun _ => rfl]
  simp [problems, require]

/-- An operator stands between two values, or it is a sign in front of a value. -/
theorem accepts_operator (o : Operator) :
    Accepts allowed before opened (o.token :: ts) ↔
      (valueEnded before = true ∨
          o.token.isSign = true ∧ (ts.head?.map Token.kind).any Kind.startsValue = true) ∧
        ts ≠ [] ∧ Accepts allowed (some .operator) opened ts := by
  have hk : o.token.kind = .operator := rfl
  rw [accepts_cons, openingsBehind_of_closes rfl fun _ => rfl, hk]
  simp [problems, require, Operator.token, and_assoc, Decidable.or_iff_not_imp_left]

theorem accepts_function (f : String) :
    Accepts allowed before opened (⟨.function, f⟩ :: .leftBracket :: ts) ↔
      needsOperator before = false ∧ isFunction f = true ∧
        Accepts allowed (some .openBracket) (.call :: opened) ts := by
  cases opened <;>
    simp [accepts_cons, problems, require, openingsBehind_eq, opens, closes, Token.leftBracket,
      and_assoc]

theorem accepts_leftBracket (h : before ≠ some .function) :
    Accepts allowed before opened (.leftBracket :: ts) ↔
      needsOperator before = false ∧
        Accepts allowed (some .openBracket) (.group :: opened) ts := by
  simp [accepts_cons, problems, require, openingsBehind_eq, opens, Token.leftBracket, h]

theorem accepts_rightBracket {o : Opening} :
    Accepts allowed before (o :: opened) (.rightBracket :: ts) ↔
      o.isBracket = true ∧ (valueEnded before = true ∨ before = some .openBracket) ∧
        Accepts allowed (some .closeBracket) opened ts := by
  cases h : o.isBracket <;>
    simp [accepts_cons, problems, require, openingsBehind_eq, opens, closes, Token.rightBracket, h,
      Decidable.or_iff_not_imp_left]

theorem not_accepts_rightBracket : ¬Accepts allowed before [] (.rightBracket :: ts) := by
  simp [accepts_cons, problems, require, Token.rightBracket]

theorem accepts_separator :
    Accepts allowed before opened (.separator :: ts) ↔
      .call ∈ opened ∧ valueEnded before = true ∧ Accepts allowed (some .comma) opened ts := by
  rw [accepts_cons, openingsBehind_of_closes rfl fun _ => rfl]
  simp [problems, require, Token.separator, and_assoc]

theorem accepts_literal (q : Quote) (s : String) :
    Accepts allowed before opened (q.opening :: ⟨.quoted, s⟩ :: q.closing :: ts) ↔
      needsOperator before = false ∧ Accepts allowed (some q.closing.kind) opened ts := by
  cases q <;>
    simp [accepts_cons, problems, require, openingsBehind_eq, opens, closes, Quote.opening,
      Quote.closing]

theorem accepts_reference (n : String) :
    Accepts allowed before opened (.leftBrace :: ⟨.reference, n⟩ :: .rightBrace :: ts) ↔
      needsOperator before = false ∧ AllowedName allowed n ∧
        Accepts allowed (some .closeBrace) opened ts := by
  cases allowed <;>
    simp [accepts_cons, problems, require, openingsBehind_eq, opens, closes, Token.leftBrace,
      Token.rightBrace, AllowedName]

theorem not_accepts_unknown (s : String) :
    ¬Accepts allowed before opened (⟨.unknown, s⟩ :: ts) := by
  simp [accepts_cons, problems]

theorem not_accepts_rightBrace (h : before ≠ some .reference) :
    ¬Accepts allowed before opened (.rightBrace :: ts) := by
  -- An open brace misses its name, and without one the closing brace is too much.
  cases hc : opened.head?.any (closes .rightBrace) <;>
    simp [accepts_cons, problems, require, Token.rightBrace, h] at hc ⊢ <;> simp [hc]

theorem not_accepts_openQuote (q : Quote) : ¬Accepts allowed before opened [q.opening] := by
  cases q <;> simp [accepts_cons, accepts_nil, openingsBehind_eq, opens, Quote.opening]

theorem not_accepts_openLiteral (q : Quote) (s : String) :
    ¬Accepts allowed before opened [q.opening, ⟨.quoted, s⟩] := by
  cases q <;> simp [accepts_cons, accepts_nil, openingsBehind_eq, opens, closes, Quote.opening]

/-! ## Syntax trees are accepted -/

theorem ne_function_of_needsOperator (h : needsOperator before = false) :
    before ≠ some .function := by
  rintro rfl
  exact nomatch h

theorem isSign_ofSign (s : Sign) : (Operator.ofSign s).token.isSign = true := by
  cases s <;> rfl

theorem Phrase.tokens_ne_nil : ∀ e : Phrase, e.tokens false ≠ []
  | .single sign a => by
    obtain ⟨t, ts, hts, -⟩ := a.exists_tokens false
    simp [Phrase.tokens, hts]
  | .joined sign a o e => by
    simp [Phrase.tokens]

/-- A sign is accepted in front of an operand. -/
theorem Operand.accepts_sign {a : Operand} {rest : List Token} (sign : Option Sign)
    (hb : needsOperator before = false)
    (ha : ∀ before : Option Kind, needsOperator before = false →
      Accepts allowed before opened (a.tokens false ++ rest)) :
    Accepts allowed before opened (Sign.tokens false sign ++ (a.tokens false ++ rest)) := by
  cases sign with
  | none => exact ha before hb
  | some s =>
    -- The sign is let through because a value starts behind it.
    obtain ⟨t, ts, hts, hstart⟩ := a.exists_tokens false
    have htail : Accepts allowed (some .operator) opened (a.tokens false ++ rest) := ha _ rfl
    rw [hts] at htail ⊢
    exact (accepts_operator _).mpr ⟨.inr ⟨isSign_ofSign s, hstart⟩, by simp, htail⟩

mutual

/-- An operand is accepted where a value may start, with whatever is open. -/
theorem Operand.accepts : ∀ (a : Operand) (before : Option Kind) {opened : List Opening}
    {rest : List Token}, needsOperator before = false →
      a.Admissible allowed (.call ∈ opened) → Accepts allowed (some a.endKind) opened rest →
        Accepts allowed before opened (a.tokens false ++ rest)
  | .number s, _, _, _, hb, _, h => (accepts_number s).mpr ⟨hb, h⟩
  | .literal q s, _, _, _, hb, _, h => (accepts_literal q s).mpr ⟨hb, h⟩
  | .reference n, _, _, _, hb, hn, h => (accepts_reference n).mpr ⟨hb, hn, h⟩
  | .emptyGroup, before, opened, rest, hb, _, h => by
    have hclose := (accepts_rightBracket (o := .group)).mpr ⟨rfl, .inr rfl, h⟩
    exact (accepts_leftBracket (ne_function_of_needsOperator hb)).mpr ⟨hb, hclose⟩
  | .emptyCall f, before, opened, rest, hb, hf, h => by
    have hclose := (accepts_rightBracket (o := .call)).mpr ⟨rfl, .inr rfl, h⟩
    exact (accepts_function f).mpr ⟨hb, hf, hclose⟩
  | .group es, before, opened, rest, hb, ⟨hone, hes⟩, h => by
    -- A group stands in a call exactly if what is inside it does.
    have hcall : decide (Opening.call ∈ .group :: opened) = decide (.call ∈ opened) := by simp
    have hclose : Accepts allowed (some es.endKind) (.group :: opened) (.rightBracket :: rest) :=
      accepts_rightBracket.mpr ⟨rfl, .inl es.endsValue_endKind, h⟩
    have hinner := es.accepts (some .openBracket) rfl
      (fun hn => hone (hcall ▸ decide_eq_false hn)) (hcall ▸ hes) hclose
    rw [Operand.tokens, List.cons_append, List.append_assoc]
    exact (accepts_leftBracket (ne_function_of_needsOperator hb)).mpr ⟨hb, hinner⟩
  | .call f es, before, opened, rest, hb, ⟨hf, hes⟩, h => by
    -- Between its brackets the call itself is open.
    have hcall : decide (Opening.call ∈ .call :: opened) = true := by simp
    have hclose : Accepts allowed (some es.endKind) (.call :: opened) (.rightBracket :: rest) :=
      accepts_rightBracket.mpr ⟨rfl, .inl es.endsValue_endKind, h⟩
    have hinner := es.accepts (some .openBracket) rfl
      (fun hn => absurd List.mem_cons_self hn) (hcall ▸ hes) hclose
    rw [Operand.tokens, List.cons_append, List.cons_append, List.append_assoc]
    exact (accepts_function f).mpr ⟨hb, hf, hinner⟩

theorem Phrase.accepts : ∀ (e : Phrase) (before : Option Kind) {opened : List Opening}
    {rest : List Token}, needsOperator before = false →
      e.Admissible allowed (.call ∈ opened) → Accepts allowed (some e.endKind) opened rest →
        Accepts allowed before opened (e.tokens false ++ rest)
  | .single sign a, before, opened, rest, hb, ha, h => by
    rw [Phrase.tokens, List.append_assoc]
    exact Operand.accepts_sign sign hb fun before hb => a.accepts before hb ha h
  | .joined sign a o e, before, opened, rest, hb, ⟨ha, he⟩, h => by
    have hrest := e.accepts (some .operator) rfl he h
    have hjoin : Accepts allowed (some a.endKind) opened (o.token :: (e.tokens false ++ rest)) := by
      refine (accepts_operator o).mpr ⟨.inl a.endsValue_endKind, ?_, hrest⟩
      simp [e.tokens_ne_nil]
    rw [Phrase.tokens, List.append_assoc, List.append_assoc, List.cons_append]
    exact Operand.accepts_sign sign hb fun before hb => a.accepts before hb ha hjoin

/-- Phrases are accepted inside a bracket, more than one only inside a call. -/
theorem Phrases.accepts : ∀ (es : Phrases) (before : Option Kind) {opened : List Opening}
    {rest : List Token}, needsOperator before = false → (.call ∉ opened → es.IsOne) →
      es.Admissible allowed (.call ∈ opened) → Accepts allowed (some es.endKind) opened rest →
        Accepts allowed before opened (es.tokens false ++ rest)
  | .one e, before, _, _, hb, _, he, h => e.accepts before hb he h
  | .more e es, before, opened, rest, hb, hone, ⟨he, hes⟩, h => by
    -- More than one phrase is admissible only where a call is open.
    have hcall : .call ∈ opened := Decidable.by_contra fun hn => (hone hn).elim
    have hrest := es.accepts (some .comma) rfl (absurd hcall) hes h
    have hjoin : Accepts allowed (some e.endKind) opened (.separator :: (es.tokens false ++ rest)) :=
      accepts_separator.mpr ⟨hcall, e.endsValue_endKind, hrest⟩
    rw [Phrases.tokens, List.append_assoc, List.cons_append]
    exact e.accepts before hb he hjoin

end

/-! ## Accepted operands are admissible -/

/-- A value may start behind a sign as in front of it. -/
theorem exists_accepts_of_sign {ts : List Token} (sign : Option Sign)
    (hb : needsOperator before = false)
    (h : Accepts allowed before opened (Sign.tokens false sign ++ ts)) :
    ∃ before', needsOperator before' = false ∧ Accepts allowed before' opened ts := by
  cases sign with
  | none => exact ⟨before, hb, h⟩
  | some s => exact ⟨some .operator, rfl, ((accepts_operator _).mp h).2.2⟩

mutual

/-- An accepted operand is admissible, and what follows it is accepted behind its end. -/
theorem Operand.admissible_of_accepts : ∀ (a : Operand) (before : Option Kind)
    {opened : List Opening} {rest : List Token}, needsOperator before = false →
      Accepts allowed before opened (a.tokens false ++ rest) →
        a.Admissible allowed (.call ∈ opened) ∧ Accepts allowed (some a.endKind) opened rest
  | .number s, _, _, _, _, h => ⟨trivial, ((accepts_number s).mp h).2⟩
  | .literal q s, _, _, _, _, h => ⟨trivial, ((accepts_literal q s).mp h).2⟩
  | .reference n, _, _, _, _, h => ((accepts_reference n).mp h).2
  | .emptyGroup, before, opened, rest, hb, h => by
    have hclose := ((accepts_leftBracket (ne_function_of_needsOperator hb)).mp h).2
    exact ⟨trivial, (accepts_rightBracket.mp hclose).2.2⟩
  | .emptyCall f, before, opened, rest, _, h => by
    obtain ⟨-, hf, hclose⟩ := (accepts_function f).mp h
    exact ⟨hf, (accepts_rightBracket.mp hclose).2.2⟩
  | .group es, before, opened, rest, hb, h => by
    rw [Operand.tokens, List.cons_append, List.append_assoc] at h
    have hinner := ((accepts_leftBracket (ne_function_of_needsOperator hb)).mp h).2
    obtain ⟨hone, hes, hclose⟩ := es.admissible_of_accepts (some .openBracket) rfl hinner
    -- A group stands in a call exactly if what is inside it does.
    have hcall : decide (Opening.call ∈ .group :: opened) = decide (.call ∈ opened) := by simp
    refine ⟨⟨fun hn => hone ?_, hcall ▸ hes⟩, (accepts_rightBracket.mp hclose).2.2⟩
    simpa using hn
  | .call f es, before, opened, rest, _, h => by
    rw [Operand.tokens, List.cons_append, List.cons_append, List.append_assoc] at h
    obtain ⟨-, hf, hinner⟩ := (accepts_function f).mp h
    obtain ⟨-, hes, hclose⟩ := es.admissible_of_accepts (some .openBracket) rfl hinner
    have hcall : decide (Opening.call ∈ .call :: opened) = true := by simp
    exact ⟨⟨hf, hcall ▸ hes⟩, (accepts_rightBracket.mp hclose).2.2⟩

theorem Phrase.admissible_of_accepts : ∀ (e : Phrase) (before : Option Kind)
    {opened : List Opening} {rest : List Token}, needsOperator before = false →
      Accepts allowed before opened (e.tokens false ++ rest) →
        e.Admissible allowed (.call ∈ opened) ∧ Accepts allowed (some e.endKind) opened rest
  | .single sign a, before, opened, rest, hb, h => by
    rw [Phrase.tokens, List.append_assoc] at h
    obtain ⟨before', hb', ha⟩ := exists_accepts_of_sign sign hb h
    exact a.admissible_of_accepts before' hb' ha
  | .joined sign a o e, before, opened, rest, hb, h => by
    rw [Phrase.tokens, List.append_assoc, List.append_assoc, List.cons_append] at h
    obtain ⟨before', hb', ha⟩ := exists_accepts_of_sign sign hb h
    obtain ⟨ha, hjoin⟩ := a.admissible_of_accepts before' hb' ha
    obtain ⟨he, hrest⟩ :=
      e.admissible_of_accepts (some .operator) rfl ((accepts_operator o).mp hjoin).2.2
    exact ⟨⟨ha, he⟩, hrest⟩

theorem Phrases.admissible_of_accepts : ∀ (es : Phrases) (before : Option Kind)
    {opened : List Opening} {rest : List Token}, needsOperator before = false →
      Accepts allowed before opened (es.tokens false ++ rest) →
        (.call ∉ opened → es.IsOne) ∧ es.Admissible allowed (.call ∈ opened) ∧
          Accepts allowed (some es.endKind) opened rest
  | .one e, before, _, _, hb, h => ⟨fun _ => trivial, e.admissible_of_accepts before hb h⟩
  | .more e es, before, opened, rest, hb, h => by
    rw [Phrases.tokens, List.append_assoc, List.cons_append] at h
    obtain ⟨he, hjoin⟩ := e.admissible_of_accepts before hb h
    obtain ⟨hcall, -, htail⟩ := accepts_separator.mp hjoin
    obtain ⟨-, hes, hrest⟩ := es.admissible_of_accepts (some .comma) rfl htail
    exact ⟨absurd hcall, ⟨he, hes⟩, hrest⟩

end

/-- A formula that is a phrase is accepted exactly if the phrase is admissible. -/
theorem Phrase.check_eq_nil_iff (e : Phrase) {ts : List Token}
    (h : significant ts = e.tokens false) :
    Fault.check allowed ts = [] ↔ e.Admissible allowed false := by
  have haccepts : Fault.check allowed ts = [] ↔ Accepts allowed none [] (e.tokens false ++ []) := by
    rw [Fault.check, checkFrom_eq_nil_iff, h, List.append_nil]
    rfl
  rw [haccepts]
  exact ⟨fun h => (e.admissible_of_accepts none rfl h).1, fun h => e.accepts none rfl h rfl⟩

/-! ## Accepted tokens are a syntax tree -/

theorem valueEnded_of_needsOperator (h : needsOperator before = false) :
    valueEnded before = false := by
  cases before with
  | none => rfl
  | some k => cases k <;> first | rfl | exact nomatch h

/-- Behind a closing mark a scan may go on in any way. -/
theorem Lexed.tail {t : Token} (h : Lexed false (t :: ts))
    (ht : t = .rightBracket ∨ t = .rightBrace) : Lexed false ts := by
  -- The token is generalized first: the quotes of a literal are no constructor terms.
  generalize hus : t :: ts = us at h
  cases h with
  | rightBracket h | rightBrace h =>
    rw [(List.cons.inj hus).2]
    exact h
  | openQuote q | openLiteral q _ | literal q _ _ =>
    rcases ht with rfl | rfl <;> cases q <;> exact nomatch hus
  | _ =>
    rcases ht with rfl | rfl <;> exact nomatch hus

/-- The ways in which a phrase ends. -/
inductive PhraseEnd : List Token → Prop where
  | nil : PhraseEnd []
  | rightBracket {ts : List Token} : Lexed false ts → PhraseEnd (.rightBracket :: ts)
  | separator {ts : List Token} : Lexed false ts → PhraseEnd (.separator :: ts)

/-- A token that starts a value is accepted only where a value may start. -/
theorem not_accepts_of_startsValue {t : Token} (ht : t.kind.startsValue = true)
    (hb : needsOperator before = true) (hf : before ≠ some .function) :
    ¬Accepts allowed before opened (t :: ts) := by
  rintro ⟨hp, -⟩
  obtain ⟨k, s⟩ := t
  cases k with
  | number | openQuote | openDoubleQuote | openBracket | openBrace | function =>
    simp [problems, require, hf, hb] at hp
  | _ => exact nomatch ht

theorem Quote.startsValue_opening (q : Quote) : q.opening.kind.startsValue = true := by
  cases q <;> rfl

/-- Behind a value the phrase ends, or an operator continues it. -/
theorem phraseEnd_or_operator {k : Kind} (hk : k.endsValue = true) (hlex : Lexed false ts)
    (hacc : Accepts allowed (some k) opened ts) :
    PhraseEnd ts ∨ ∃ o us, ts = Operator.token o :: us ∧ Lexed false us := by
  have hb : needsOperator (some k) = true := by
    cases k <;> first | rfl | exact nomatch hk
  have hf : some k ≠ some .function := by
    rintro ⟨⟩
    exact nomatch hk
  have hr : some k ≠ some .reference := by
    rintro ⟨⟩
    exact nomatch hk
  -- What is left besides ends and operators is never accepted, or it starts a value, which
  -- needs an operator here.
  cases hlex with
  | nil => exact .inl .nil
  | operator o h => exact .inr ⟨o, _, rfl, h⟩
  | rightBracket h => exact .inl (.rightBracket h)
  | separator h => exact .inl (.separator h)
  | rightBrace h => exact (not_accepts_rightBrace hr hacc).elim
  | unknown s h => exact (not_accepts_unknown s hacc).elim
  | openQuote q | openLiteral q _ | literal q _ _ =>
    exact (not_accepts_of_startsValue q.startsValue_opening hb hf hacc).elim
  | number _ _ | function _ _ | leftBracket _ | leftBrace _ =>
    exact (not_accepts_of_startsValue rfl hb hf hacc).elim

/-- An accepted opening brace has a name and its closing brace behind it. -/
theorem exists_reference (hlex : Lexed true ts)
    (hacc : Accepts allowed before opened (.leftBrace :: ts)) :
    ∃ n us, ts = ⟨.reference, n⟩ :: .rightBrace :: us ∧ Lexed false us := by
  have htail : Accepts allowed (some .openBrace) (.brace :: opened) ts := hacc.2
  -- The brace is open behind its token, so neither the end nor any other mark is accepted.
  cases hlex with
  | nil => exact nomatch htail
  | @reference us n hbrace h =>
    have hname : Accepts allowed (some .reference) (.brace :: opened) us := by
      have := htail.2
      rwa [openingsBehind_of_closes rfl fun _ => rfl] at this
    cases us with
    | nil => exact nomatch hname
    | cons t us =>
      rcases hbrace t rfl with rfl | rfl
      · exact (not_accepts_of_startsValue rfl rfl (by simp) hname).elim
      · exact ⟨n, us, rfl, h.tail (.inr rfl)⟩
  | rightBracket _ => exact nomatch (accepts_rightBracket.mp htail).1
  | separator _ => exact nomatch (accepts_separator.mp htail).2.1
  | rightBrace _ => exact (not_accepts_rightBrace (by simp) htail).elim
  | unknown s _ => exact (not_accepts_unknown s htail).elim
  | openQuote q | openLiteral q _ | literal q _ _ =>
    exact (not_accepts_of_startsValue q.startsValue_opening rfl (by simp) htail).elim
  | number _ _ | function _ _ | leftBracket _ | leftBrace _ =>
    exact (not_accepts_of_startsValue rfl rfl (by simp) htail).elim

/-- Where a phrase starts, an operand or a sign and an operand are accepted. -/
theorem exists_sign (hlex : Lexed false ts) (hacc : Accepts allowed before opened ts)
    (hb : needsOperator before = false) (hne : ts ≠ [])
    (hopen : before = some .openBracket → ∀ us, ts ≠ .rightBracket :: us) :
    ∃ sign before' us, ts = Sign.tokens false sign ++ us ∧ needsOperator before' = false ∧
      (us.head?.map Token.kind).any Kind.startsValue = true ∧ Lexed false us ∧
        Accepts allowed before' opened us := by
  have hended : valueEnded before ≠ true := by
    rw [valueEnded_of_needsOperator hb]
    exact Bool.false_ne_true
  cases hlex with
  | nil => exact absurd rfl hne
  | operator o h =>
    -- No value has ended here, so the operator can only be a sign.
    obtain ⟨hsign, -, hus⟩ := (accepts_operator o).mp hacc
    obtain ⟨ho, hstart⟩ := hsign.resolve_left hended
    have hs : ∃ s, o.token = (Operator.ofSign s).token := by
      cases o with
      | plus => exact ⟨.plus, rfl⟩
      | minus => exact ⟨.minus, rfl⟩
      | _ => exact nomatch ho
    obtain ⟨s, hs⟩ := hs
    exact ⟨some s, some .operator, _, congrArg (· :: _) hs, rfl, hstart, h, hus⟩
  | rightBracket h =>
    cases opened with
    | nil => exact (not_accepts_rightBracket hacc).elim
    | cons o outer =>
      -- The bracket would be empty, which `hopen` excludes.
      have hbefore := (accepts_rightBracket.mp hacc).2.1.resolve_left hended
      exact absurd rfl (hopen hbefore _)
  | separator h => exact absurd (accepts_separator.mp hacc).2.1 hended
  | rightBrace h =>
    have hr : before ≠ some .reference := by
      rintro rfl
      exact nomatch hb
    exact (not_accepts_rightBrace hr hacc).elim
  | unknown s h => exact (not_accepts_unknown s hacc).elim
  | openQuote q => exact (not_accepts_openQuote q hacc).elim
  | openLiteral q s => exact (not_accepts_openLiteral q s hacc).elim
  | literal q s h =>
    exact ⟨none, before, _, rfl, hb, q.startsValue_opening, .literal q s h, hacc⟩
  | number s h => exact ⟨none, before, _, rfl, hb, rfl, .number s h, hacc⟩
  | function f h => exact ⟨none, before, _, rfl, hb, rfl, .function f h, hacc⟩
  | leftBracket h => exact ⟨none, before, _, rfl, hb, rfl, .leftBracket h, hacc⟩
  | leftBrace h => exact ⟨none, before, _, rfl, hb, rfl, .leftBrace h, hacc⟩

-- The three descents call each other on shorter lists; on the same list phrases may call a
-- phrase, and a phrase an operand, which the measures 3n + 2, 3n + 1 and 3n allow.
mutual

/-- Accepted tokens that start a value start with an operand. -/
theorem exists_operand (ts : List Token) {before : Option Kind} {opened : List Opening}
    (hlex : Lexed false ts) (hacc : Accepts allowed before opened ts)
    (hb : needsOperator before = false)
    (hstart : (ts.head?.map Token.kind).any Kind.startsValue = true) :
    ∃ a rest, ts = Operand.tokens false a ++ rest ∧ a.Admissible allowed (.call ∈ opened) ∧
      Lexed false rest ∧ Accepts allowed (some a.endKind) opened rest := by
  match ts, hlex with
  | _, .number s h => exact ⟨.number s, _, rfl, trivial, h, ((accepts_number s).mp hacc).2⟩
  | _, .literal q s h => exact ⟨.literal q s, _, rfl, trivial, h, ((accepts_literal q s).mp hacc).2⟩
  | _, .leftBrace h =>
    obtain ⟨n, rest, rfl, hrest⟩ := exists_reference h hacc
    obtain ⟨-, hn, htail⟩ := (accepts_reference n).mp hacc
    exact ⟨.reference n, rest, rfl, hn, hrest, htail⟩
  | _, @Lexed.leftBracket _ us h =>
    have hinner := ((accepts_leftBracket (ne_function_of_needsOperator hb)).mp hacc).2
    by_cases hempty : ∃ rest, us = .rightBracket :: rest
    · obtain ⟨rest, rfl⟩ := hempty
      have htail := (accepts_rightBracket.mp hinner).2.2
      exact ⟨.emptyGroup, rest, rfl, trivial, h.tail (.inl rfl), htail⟩
    · obtain ⟨es, rest, hus, hone, hes, hrest, htail⟩ :=
        exists_phrases us h hinner rfl rfl fun _ rest hr => hempty ⟨rest, hr⟩
      have hcall : decide (Opening.call ∈ .group :: opened) = decide (.call ∈ opened) := by simp
      refine ⟨.group es, rest, by simp [hus, Operand.tokens], ⟨?_, hcall ▸ hes⟩, hrest, htail⟩
      intro hn
      exact hone (of_decide_eq_false (hcall.trans hn))
  | _, @Lexed.function _ us f h =>
    obtain ⟨-, hf, hinner⟩ := (accepts_function f).mp hacc
    by_cases hempty : ∃ rest, us = .rightBracket :: rest
    · obtain ⟨rest, rfl⟩ := hempty
      have htail := (accepts_rightBracket.mp hinner).2.2
      exact ⟨.emptyCall f, rest, rfl, hf, h.tail (.inl rfl), htail⟩
    · obtain ⟨es, rest, hus, -, hes, hrest, htail⟩ :=
        exists_phrases us h hinner rfl rfl fun _ rest hr => hempty ⟨rest, hr⟩
      have hcall : decide (Opening.call ∈ .call :: opened) = true := by simp
      exact ⟨.call f es, rest, by simp [hus, Operand.tokens], ⟨hf, hcall ▸ hes⟩, hrest, htail⟩
  | _, .openQuote q => exact (not_accepts_openQuote q hacc).elim
  | _, .openLiteral q s => exact (not_accepts_openLiteral q s hacc).elim
  termination_by 3 * ts.length

/-- Accepted tokens where a value may start start with a phrase. -/
theorem exists_phrase (ts : List Token) {before : Option Kind} {opened : List Opening}
    (hlex : Lexed false ts) (hacc : Accepts allowed before opened ts)
    (hb : needsOperator before = false) (hne : ts ≠ [])
    (hopen : before = some .openBracket → ∀ us, ts ≠ .rightBracket :: us) :
    ∃ e rest, ts = Phrase.tokens false e ++ rest ∧ e.Admissible allowed (.call ∈ opened) ∧
      PhraseEnd rest ∧ Accepts allowed (some e.endKind) opened rest := by
  obtain ⟨sign, before', us, hts, hb', hstart, hus, hacc'⟩ := exists_sign hlex hacc hb hne hopen
  have hlen := congrArg List.length hts
  rw [List.length_append] at hlen
  obtain ⟨a, rest, hus', ha, hrest, htail⟩ := exists_operand us hus hacc' hb' hstart
  -- The operand ends the phrase, or an operator joins it to a shorter one.
  rcases phraseEnd_or_operator a.endsValue_endKind hrest htail with hend | ⟨o, us', rfl, hus''⟩
  · refine ⟨.single sign a, rest, ?_, ha, hend, htail⟩
    rw [hts, hus', Phrase.tokens, List.append_assoc]
  · obtain ⟨-, hne', htail'⟩ := (accepts_operator o).mp htail
    have hlen' := congrArg List.length hus'
    rw [List.length_append, List.length_cons] at hlen'
    obtain ⟨e, rest, hus'', he, hend, hlast⟩ := exists_phrase us' hus'' htail' rfl hne' (by simp)
    refine ⟨.joined sign a o e, rest, ?_, ⟨ha, he⟩, hend, hlast⟩
    simp [hts, hus', hus'', Phrase.tokens]
  termination_by 3 * ts.length + 1

/-- Accepted tokens inside a bracket that is not empty are phrases up to its end, more than
    one only inside a call. -/
theorem exists_phrases (ts : List Token) {before : Option Kind} {o : Opening}
    {opened : List Opening} (hlex : Lexed false ts)
    (hacc : Accepts allowed before (o :: opened) ts) (ho : o.isBracket = true)
    (hb : needsOperator before = false)
    (hopen : before = some .openBracket → ∀ us, ts ≠ .rightBracket :: us) :
    ∃ es rest, ts = Phrases.tokens false es ++ .rightBracket :: rest ∧
      (.call ∉ o :: opened → es.IsOne) ∧ es.Admissible allowed (.call ∈ o :: opened) ∧
        Lexed false rest ∧ Accepts allowed (some .closeBracket) opened rest := by
  have hne : ts ≠ [] := by
    rintro rfl
    exact nomatch hacc
  -- The bracket is still open behind the phrase, so the tokens do not end there.
  obtain ⟨e, rest, hts, he, hend, htail⟩ := exists_phrase ts hlex hacc hb hne hopen
  cases hend with
  | nil => exact nomatch htail
  | @rightBracket rest hrest =>
    have hlast := (accepts_rightBracket.mp htail).2.2
    exact ⟨.one e, rest, hts, fun _ => trivial, he, hrest, hlast⟩
  | @separator us hus =>
    -- An accepted comma has an open call around it.
    obtain ⟨hcall, -, hacc'⟩ := accepts_separator.mp htail
    have hlen := congrArg List.length hts
    rw [List.length_append, List.length_cons] at hlen
    obtain ⟨es, rest, hus', -, hes, hrest, hlast⟩ := exists_phrases us hus hacc' ho rfl (by simp)
    refine ⟨.more e es, rest, ?_, absurd hcall, ⟨he, hes⟩, hrest, hlast⟩
    simp [hts, hus', Phrases.tokens]
  termination_by 3 * ts.length + 2

end

/-! ## The grammar of accepted formulas -/

/-- A formula without faults is blank, or it is a phrase. -/
theorem exists_phrase_of_check {formula : String}
    (h : Fault.check allowed (tokenize formula) = []) :
    significant (tokenize formula) = [] ∨
      ∃ e : Phrase, significant (tokenize formula) = e.tokens false ∧
        e.Admissible allowed false := by
  have hacc := (checkFrom_eq_nil_iff allowed 0 none [] (tokenize formula)).mp h
  by_cases hne : significant (tokenize formula) = []
  · exact .inl hne
  · obtain ⟨e, rest, hts, he, hend, htail⟩ :=
      exists_phrase _ (lexed_tokenize formula) hacc rfl hne (by simp)
    -- At the top nothing is open: a closing bracket or a comma would be a fault.
    cases hend with
    | nil => exact .inr ⟨e, hts.trans (List.append_nil _), he⟩
    | rightBracket _ => exact (not_accepts_rightBracket htail).elim
    | separator _ => exact nomatch (accepts_separator.mp htail).1

/-- **Check.** The check finds nothing in a formula exactly if its tokens, blanks left out, are
    none at all or those of an admissible phrase: for every text, malformed ones included, and
    every list of allowed names. -/
theorem check_tokenize_eq_nil_iff (allowed : Option (List String)) (formula : String) :
    Fault.check allowed (tokenize formula) = [] ↔
      significant (tokenize formula) = [] ∨
        ∃ e : Phrase, significant (tokenize formula) = e.tokens false ∧
          e.Admissible allowed false := by
  constructor
  · exact exists_phrase_of_check
  · intro h
    apply (checkFrom_eq_nil_iff allowed 0 none [] (tokenize formula)).mpr
    rcases h with hnil | ⟨e, htoks, he⟩
    · rw [hnil]
      exact rfl
    · have hacc : Accepts allowed none [] (e.tokens false ++ []) := e.accepts none rfl he rfl
      rwa [List.append_nil, ← htoks] at hacc

end Formulary
