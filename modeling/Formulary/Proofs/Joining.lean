/-
  Formulary.Proofs.Joining

  The tokens of texts that are put together.

  A text that ends with a value is scanned in the same way whatever is put behind it, as long
  as that does not go on a numeral or a word (`significant_append_text`). Behind an operator or
  an opening bracket the scan goes on like at the start of a text (`tokensAfter_fresh`). So the
  tokens of a formula that is put together from operands, operators and brackets are those
  of its parts.
-/

import Formulary.Proofs.Splicing

namespace Formulary

open Text (isBlank isDigit isLetter)
open Token (significant)

namespace Scan

/-! ## Where a value starts -/

/-- Kinds behind which the scan goes on like at the start of a text. -/
structure Fresh (last : Option Kind) : Prop where
  outside : OutsideQuotes last
  brace : last ≠ some .openBrace
  minus : last.any minusIsOperatorAfter = false

theorem Fresh.ne_opening {last : Option Kind} (h : Fresh last) (q : Quote) :
    last ≠ some q.opening.kind := by
  cases q with
  | single => exact h.outside.single
  | double => exact h.outside.double

theorem fresh_none : Fresh none := ⟨⟨nofun, nofun, nofun⟩, nofun, rfl⟩

theorem fresh_operator : Fresh (some .operator) := ⟨⟨nofun, nofun, nofun⟩, nofun, rfl⟩

theorem fresh_openBracket : Fresh (some .openBracket) := ⟨⟨nofun, nofun, nofun⟩, nofun, rfl⟩

variable {last last' : Option Kind} {c : Char} {cs : List Char} {k : Kind} {m : Nat}

theorem PlainRule.fresh (h : PlainRule last c cs k m) (hlast : Fresh last) (hlast' : Fresh last') :
    PlainRule last' c cs k m := by
  cases h with
  | subtraction _ hminus => exact absurd hminus (by simp [hlast.minus])
  | negative hc hpos _ => exact .negative hc hpos hlast'.minus
  | numeral hpos => exact .numeral hpos
  | name hbrace _ _ => exact absurd hbrace hlast.brace
  | pair _ hc hcs => exact .pair hlast'.brace hc hcs
  | symbol _ hc hstarts hpair => exact .symbol hlast'.brace hc hstarts hpair
  | call _ hc hnext => exact .call hlast'.brace hc hnext
  | mark hmark _ => exact .mark hmark fun h => absurd h hlast'.brace
  | blank _ hc => exact .blank hlast'.brace hc
  | unknown _ hnumeral hsymbol hcall hmark hblank =>
    exact .unknown hlast'.brace hnumeral hsymbol hcall hmark hblank

theorem Rule.fresh (h : Rule last c cs k m) (hlast : Fresh last) (hlast' : Fresh last') :
    Rule last' c cs k m := by
  cases h with
  | opening q hc _ => exact .opening q hc hlast'.outside
  | closing q hc hclosed =>
    rcases hclosed with hquoted | hopened
    · exact absurd hquoted hlast.outside.quoted
    · exact absurd hopened (hlast.ne_opening q)
  | content q _ hopened => exact absurd hopened (hlast.ne_opening q)
  | plain hc _ hplain => exact .plain hc hlast'.ne_opening (hplain.fresh hlast hlast')

theorem Fresh.added_eq (h : Fresh last) (t : Token) : Step.added last t = [t] := by
  have hs := h.outside.single
  have hd := h.outside.double
  simp [Step.added, closesEmpty, hs, hd]

/-- Behind fresh kinds all texts are scanned alike. -/
theorem tokensAfter_fresh (hlast : Fresh last) (hlast' : Fresh last') (cs : List Char) :
    tokensAfter last cs = tokensAfter last' cs := by
  induction last, cs using scanInduction with
  | nil last => rw [tokensAfter, tokensAfter]
  | cons last c cs ih =>
    have hlexeme := ((rule_lexeme last c cs).fresh hlast hlast').lexeme_eq
    have hfirst : firstToken last' c cs = firstToken last c cs := by
      rw [firstToken, firstToken, hlexeme]
    rw [tokensAfter_eq_added, tokensAfter_eq_added, hlast.added_eq, hlast'.added_eq, hfirst,
      hlexeme]
    refine congrArg ([firstToken last c cs] ++ ·) ?_
    -- A blank leaves both kinds as they are, any other token makes them the same.
    rw [Token.lastKind] at ih ⊢
    rw [Token.lastKind]
    split
    · next hblank =>
      rw [if_pos hblank] at ih
      exact ih hlast
    · rfl

/-! ## Behind a value -/

/-- Tokens end with blank ones behind their last significant token. -/
theorem exists_append_blanks {ts : List Token} {t : Token}
    (h : (significant ts).getLast? = some t) :
    ∃ front rest, ts = front ++ rest ∧ front.getLast? = some t ∧ ∀ b ∈ rest, b.kind = .blank := by
  -- From the end of the list: blanks there join the rest until the token is met.
  induction ts using List.reverseRecOn with
  | nil => cases h
  | append_singleton ts u ih =>
    rw [Token.significant_append, Token.significant_cons] at h
    split at h
    · next hblank =>
      obtain ⟨front, rest, rfl, hfront, hrest⟩ := ih (by simpa [significant] using h)
      refine ⟨front, rest ++ [u], List.append_assoc _ _ _, hfront, fun b hb => ?_⟩
      rcases List.mem_append.mp hb with hb | hb
      · exact hrest b hb
      · rw [List.mem_singleton.mp hb]
        exact of_decide_eq_true hblank
    · refine ⟨ts ++ [u], [], (List.append_nil _).symm, ?_, List.forall_mem_nil _⟩
      have hlast : (significant ts ++ u :: significant []).getLast? = some u := List.getLast?_concat
      rw [hlast] at h
      rw [List.getLast?_concat, h]

theorem kinds_of_endsValue {k : Kind} (h : k.endsValue = true) :
    k ∉ growing ∧ k ∉ enclosing ∧ k ≠ .operator ∧ k ≠ .blank := by
  cases k with
  | number | closeBracket | closeBrace | closeQuote | closeDoubleQuote => decide
  | _ => exact nomatch h

/-- The characters of tokens are those of their texts. -/
theorem mem_toList_joined {ts : List Token} {d : Char} :
    d ∈ (Token.joined ts).toList ↔ ∃ t ∈ ts, d ∈ t.text.toList := by
  induction ts with
  | nil => simp
  | cons t ts ih => simp [ih]

/-- Blank tokens are those of blanks. -/
theorem blank_of_blanks {last : Option Kind} {w : List Char}
    (h : ∀ b ∈ tokensAfter last w, b.kind = .blank) : ∀ d ∈ w, isBlank d = true := by
  intro d hd
  have htext : d ∈ (Token.joined (tokensAfter last w)).toList := by
    rwa [joined_tokensAfter, String.toList_ofList]
  obtain ⟨b, hb, hd⟩ := mem_toList_joined.mp htext
  exact isBlank_of_mem_text hb (h b hb) d hd

/-- Blanks in between are no part of a numeral or a word either. -/
theorem detached_behind_blanks {v w : List Char} (h : Detached [] v)
    (hw : ∀ d ∈ w, isBlank d = true) : Detached w (w ++ v) := by
  cases w with
  | nil => exact h
  | cons d w =>
    have hnext := bracketNext_append (d :: w) h.bracket
    rw [List.append_nil] at hnext
    exact .of_isBlank (hw d List.mem_cons_self) hnext

theorem ne_of_not_enclosing {k : Kind} (h : k ∉ enclosing) :
    some k ≠ some .openBrace ∧ ∀ q : Quote, some k ≠ some q.opening.kind := by
  refine ⟨?_, fun q => ?_⟩
  · rintro ⟨⟩
    exact h (by decide)
  · cases q <;> rintro ⟨⟩ <;> exact h (by decide)

/-- Behind a text that ends with a value any other text is scanned as behind that value, unless it
    goes on a numeral or a word. -/
theorem significant_append_text {s : String} {t : Token}
    (ht : (significant (tokenize s)).getLast? = some t) (hk : t.kind.endsValue = true)
    {v : List Char} (hv : Detached [] v) :
    significant (tokensAfter none (s.toList ++ v)) =
      significant (tokenize s) ++ significant (tokensAfter (some t.kind) v) := by
  obtain ⟨hgrowing, henclosing, hoperator, hnotblank⟩ := kinds_of_endsValue hk
  -- The text is scanned up to the value first; blanks behind it go together with `v`.
  obtain ⟨front, rest, htokens, hfront, hrest⟩ := exists_append_blanks ht
  have hquoted : ∀ u ∈ front.getLast?, u.kind ≠ .quoted := by
    rintro u hu hkind
    obtain rfl := Option.some.inj (hfront.symm.trans hu)
    exact hgrowing (by rw [hkind]; decide)
  obtain ⟨u, w, last', hs, hpassed, rfl⟩ := exists_passed htokens hquoted
  have hlast : last' = some t.kind := hpassed.last_eq hfront hnotblank
  subst hlast
  have hwblank : ∀ d ∈ w, isBlank d = true := blank_of_blanks hrest
  have hspliced : Passed (w ++ v) none u front (some t.kind) := by
    refine hpassed.splice ?_ (detached_behind_blanks hv hwblank)
    rintro u hu
    obtain rfl := Option.some.inj (hfront.symm.trans hu)
    exact ⟨hgrowing, fun h => absurd h hoperator⟩
  obtain ⟨hbrace, hopen⟩ := ne_of_not_enclosing henclosing
  calc significant (tokensAfter none (s.toList ++ v))
    _ = significant front ++ significant (tokensAfter (some t.kind) (w ++ v)) := by
      rw [hs, List.append_assoc, hspliced.tokensAfter_eq, Token.significant_append]
    _ = significant front ++ significant (tokensAfter (some t.kind) v) := by
      rw [← significant_dropWhile hbrace hopen (w ++ v), List.dropWhile_append_of_pos hwblank,
        significant_dropWhile hbrace hopen]
    _ = significant (tokenize s) ++ significant (tokensAfter (some t.kind) v) := by
      have hnil : significant (tokensAfter (some t.kind) w) = [] :=
        List.filter_eq_nil_iff.mpr fun b hb => by simp [Token.isBlank, hrest b hb]
      rw [htokens, Token.significant_append, hnil, List.append_nil]

/-! ## Symbols -/

/-- No brace and no literal is open behind a token of this kind. -/
structure NothingOpen (last : Option Kind) : Prop where
  brace : last ≠ some .openBrace
  opening (q : Quote) : last ≠ some q.opening.kind

theorem Fresh.nothingOpen (h : Fresh last) : NothingOpen last := ⟨h.brace, h.ne_opening⟩

theorem nothingOpen_of_endsValue (h : k.endsValue = true) : NothingOpen (some k) :=
  have hne := ne_of_not_enclosing (kinds_of_endsValue h).2.1
  ⟨hne.1, hne.2⟩

theorem significant_cons_of_ne {t : Token} (ts : List Token) (h : t.kind ≠ .blank) :
    significant (t :: ts) = t :: significant ts := by
  rw [Token.significant_cons, if_neg (by simpa [Token.isBlank] using h)]

theorem significant_blank (h : NothingOpen last) (cs : List Char) :
    significant (tokensAfter last (' ' :: cs)) = significant (tokensAfter last cs) := by
  rw [← significant_dropWhile h.brace h.opening (' ' :: cs),
    List.dropWhile_cons_of_pos (by decide), significant_dropWhile h.brace h.opening]

theorem significant_mark (h : NothingOpen last) (hmark : (c, k) ∈ marks) (cs : List Char) :
    significant (tokensAfter last (c :: cs)) =
      ⟨k, String.ofList [c]⟩ :: significant (tokensAfter (some k) cs) := by
  have hk : k ≠ .blank := by
    rintro rfl
    simp [marks] at hmark
  rw [tokensAfter_of_mark h.opening (absurd · h.brace) hmark, significant_cons_of_ne _ hk]

/-- What the rules for symbols read is the token of an operator. -/
theorem tokensAfter_of_rule {o : Operator} (hrule : Rule last c cs .operator m)
    (ho : String.ofList (c :: cs.take m) = o.symbol) :
    tokensAfter last (c :: cs) = o.token :: tokensAfter (some .operator) (cs.drop m) := by
  have hclosed : closesEmpty last .operator = false := by simp [closesEmpty]
  rw [tokensAfter_cons hrule.lexeme_eq hclosed, ho]
  rfl

theorem ne_mark_of_mem_symbols (h : c ∈ symbols) (q : Quote) : c ≠ q.mark := by
  rintro rfl
  cases q <;> simp [symbols, Quote.mark] at h

/-- A symbol of one character. -/
theorem tokensAfter_symbol (h : NothingOpen last) {o : Operator} (ho : o.symbol.toList = [c])
    (hnumeral : c = '-' → numeralLength cs = 0) (hequals : c ∈ comparisons → cs.head? ≠ some '=') :
    tokensAfter last (c :: cs) = o.token :: tokensAfter (some .operator) cs := by
  have hsymbol : c ∈ symbols := by
    cases o <;> simp [Operator.symbol] at ho <;> subst ho <;> decide
  have hstarts : ¬StartsNumeral (c :: cs) := by
    rw [not_startsNumeral_cons, numeralLength_of_mem_symbols hsymbol]
    refine ⟨Nat.lt_irrefl 0, fun hc => ?_⟩
    rw [hnumeral hc.1] at hc
    exact Nat.lt_irrefl 0 hc.2
  have hrule : Rule last c cs .operator 0 :=
    .plain (ne_mark_of_mem_symbols hsymbol) h.opening (.symbol h.brace hsymbol hstarts hequals)
  exact tokensAfter_of_rule hrule (by rw [List.take_zero, ← ho, String.ofList_toList])

/-- A symbol of two characters. -/
theorem tokensAfter_pair (h : NothingOpen last) {o : Operator} (ho : o.symbol.toList = [c, '='])
    (cs : List Char) :
    tokensAfter last (c :: '=' :: cs) = o.token :: tokensAfter (some .operator) cs := by
  have hcomparison : c ∈ comparisons := by
    cases o <;> simp [Operator.symbol] at ho <;> subst ho <;> decide
  have hquote := ne_mark_of_mem_symbols (mem_symbols_of_mem_comparisons hcomparison)
  have hrule : Rule last c ('=' :: cs) .operator 1 :=
    .plain hquote h.opening (.pair h.brace hcomparison rfl)
  have htext : String.ofList (c :: ('=' :: cs).take 1) = o.symbol := by
    rw [List.take_one, List.head?_cons, Option.toList_some, ← ho, String.ofList_toList]
  exact tokensAfter_of_rule hrule htext

/-- An operator with a blank behind it. -/
theorem tokensAfter_operator (h : NothingOpen last) (o : Operator) (cs : List Char) :
    tokensAfter last (o.symbol.toList ++ ' ' :: cs) =
      o.token :: tokensAfter (some .operator) (' ' :: cs) := by
  have hnumeral : numeralLength (' ' :: cs) = 0 :=
    numeralLength_of_not_isDigit cs (by decide) (by decide)
  have hequals : (' ' :: cs).head? ≠ some '=' := by simp
  cases o with
  | atMost | doubleEquals | atLeast => exact tokensAfter_pair h rfl _
  | _ => exact tokensAfter_symbol h rfl (fun _ => hnumeral) fun _ => hequals

theorem significant_operator (h : NothingOpen last) (o : Operator) (cs : List Char) :
    significant (tokensAfter last (o.symbol.toList ++ ' ' :: cs)) =
      o.token :: significant (tokensAfter (some .operator) cs) := by
  have hk : o.token.kind ≠ .blank := nofun
  rw [tokensAfter_operator h, significant_cons_of_ne _ hk,
    significant_blank fresh_operator.nothingOpen]

/-- A sign with no numeral behind it. -/
theorem significant_sign (h : NothingOpen last) (s : Sign) (hcs : numeralLength cs = 0) :
    significant (tokensAfter last ((Operator.ofSign s).symbol.toList ++ cs)) =
      (Operator.ofSign s).token :: significant (tokensAfter (some .operator) cs) := by
  have hk : (Operator.ofSign s).token.kind ≠ .blank := nofun
  have hsign : tokensAfter last ((Operator.ofSign s).symbol.toList ++ cs) =
      (Operator.ofSign s).token :: tokensAfter (some .operator) cs := by
    cases s with
    | plus =>
      exact tokensAfter_symbol (c := '+') h rfl (fun _ => hcs) fun hc => absurd hc (by decide)
    | minus =>
      exact tokensAfter_symbol (c := '-') h rfl (fun _ => hcs) fun hc => absurd hc (by decide)
  rw [hsign, significant_cons_of_ne _ hk]

/-- A zero in front of a closing bracket. -/
theorem significant_zero (h : NothingOpen last) (cs : List Char) :
    significant (tokensAfter last ('0' :: ')' :: cs)) =
      .zero :: .rightBracket :: significant (tokensAfter (some .closeBracket) cs) := by
  have hlength : numeralLength ('0' :: ')' :: cs) = 1 := by
    simp [numeralLength, isDigit]
  have hrule : Rule last '0' (')' :: cs) .number (numeralLength ('0' :: ')' :: cs) - 1) :=
    .plain (fun q => by cases q <;> decide) h.opening (.numeral hlength.symm.le)
  have hclosed : closesEmpty last .number = false := by simp [closesEmpty]
  have hk : Kind.number ≠ .blank := by decide
  have hbracket := significant_mark (k := .closeBracket) (c := ')')
    (nothingOpen_of_endsValue (k := .number) rfl) (by decide) cs
  rw [hlength] at hrule
  rw [tokensAfter_cons hrule.lexeme_eq hclosed, significant_cons_of_ne _ hk]
  exact congrArg (Token.zero :: ·) hbracket

end Scan

end Formulary
