/-
  Formulary.Proofs.Lexing

  Which token lists a formula can have, blanks left out.

  `Lexed` says what the scanner guarantees of its tokens without any check: a function
  name has a bracket behind it, a text stands between two quotes of one flavour or is
  the last token, a name follows an opening brace and is followed by a brace or by
  nothing, no operator follows an opening brace, and marks have their texts.

  `lexed_tokenize` says that the tokens of every formula are of this form, malformed ones
  included.
-/

import Formulary.Proofs.Rules

namespace Formulary

open Text (isBlank isDigit isLetter)
open Token (significant)

/-! ## The form of a token list -/

/-- The tokens that a scan can give, blanks left out; `inBrace` tells whether an opening
    brace stands directly in front of them. -/
inductive Lexed : Bool → List Token → Prop where
  | nil {b : Bool} : Lexed b []
  | number {b : Bool} {ts : List Token} (s : String) :
    Lexed false ts → Lexed b (⟨.number, s⟩ :: ts)
  | operator {ts : List Token} (o : Operator) : Lexed false ts → Lexed false (o.token :: ts)
  | function {b : Bool} {ts : List Token} (f : String) :
    Lexed false ts → Lexed b (⟨.function, f⟩ :: .leftBracket :: ts)
  | leftBracket {b : Bool} {ts : List Token} : Lexed false ts → Lexed b (.leftBracket :: ts)
  | rightBracket {b : Bool} {ts : List Token} : Lexed false ts → Lexed b (.rightBracket :: ts)
  | separator {b : Bool} {ts : List Token} : Lexed false ts → Lexed b (.separator :: ts)
  | leftBrace {b : Bool} {ts : List Token} : Lexed true ts → Lexed b (.leftBrace :: ts)
  | rightBrace {b : Bool} {ts : List Token} : Lexed false ts → Lexed b (.rightBrace :: ts)
  | reference {ts : List Token} (n : String) :
    (∀ t ∈ ts.head?, t = .leftBrace ∨ t = .rightBrace) → Lexed false ts →
      Lexed true (⟨.reference, n⟩ :: ts)
  | unknown {b : Bool} {ts : List Token} (s : String) :
    Lexed false ts → Lexed b (⟨.unknown, s⟩ :: ts)
  /-- A quote at the end. -/
  | openQuote {b : Bool} (q : Quote) : Lexed b [q.opening]
  /-- A literal that is never closed. -/
  | openLiteral {b : Bool} (q : Quote) (s : String) : Lexed b [q.opening, ⟨.quoted, s⟩]
  | literal {b : Bool} {ts : List Token} (q : Quote) (s : String) :
    Lexed false ts → Lexed b (q.opening :: ⟨.quoted, s⟩ :: q.closing :: ts)

/-- The characters that a run takes. -/
theorem take_length_takeWhile {α : Type} (p : α → Bool) (cs : List α) :
    cs.take (cs.takeWhile p).length = cs.takeWhile p :=
  (congrArg (List.take _) List.takeWhile_append_dropWhile).symm.trans List.take_left

/-- What is left behind the characters that a run takes. -/
theorem drop_length_takeWhile {α : Type} (p : α → Bool) (cs : List α) :
    cs.drop (cs.takeWhile p).length = cs.dropWhile p :=
  (congrArg (List.drop _) List.takeWhile_append_dropWhile).symm.trans List.drop_left

/-! ## Tokens outside quotes -/

/-- What a token outside quotes can be, with the text `rest` behind it. -/
inductive Plain (last : Option Kind) (rest : List Char) : Token → Prop where
  | number (s : String) : Plain last rest ⟨.number, s⟩
  | operator (o : Operator) : last ≠ some .openBrace → Plain last rest o.token
  | function (f : String) : bracketNext rest = true → Plain last rest ⟨.function, f⟩
  | leftBracket : Plain last rest .leftBracket
  | rightBracket : Plain last rest .rightBracket
  | separator : Plain last rest .separator
  | leftBrace : Plain last rest .leftBrace
  | rightBrace : Plain last rest .rightBrace
  | reference (n : String) : last = some .openBrace →
    (∀ c ∈ rest.head?, c = '\x7b' ∨ c = '\x7d') → Plain last rest ⟨.reference, n⟩
  | blank (s : String) : Plain last rest ⟨.blank, s⟩
  | unknown (s : String) : Plain last rest ⟨.unknown, s⟩

/-- The symbols of one character. -/
theorem exists_operator_of_mem {c : Char} (h : c ∈ ['-', '+', '*', '/', '^', '<', '=', '>']) :
    ∃ o : Operator, o.token = ⟨.operator, String.ofList [c]⟩ := by
  simp only [List.mem_cons, List.not_mem_nil, or_false] at h
  rcases h with rfl | rfl | rfl | rfl | rfl | rfl | rfl | rfl
  · exact ⟨.minus, rfl⟩
  · exact ⟨.plus, rfl⟩
  · exact ⟨.times, rfl⟩
  · exact ⟨.divided, rfl⟩
  · exact ⟨.power, rfl⟩
  · exact ⟨.less, rfl⟩
  · exact ⟨.equals, rfl⟩
  · exact ⟨.greater, rfl⟩

/-- The symbols of two characters. -/
theorem exists_operator_of_eq {c : Char} (h : c = '<' ∨ c = '=' ∨ c = '>') :
    ∃ o : Operator, o.token = ⟨.operator, String.ofList [c, '=']⟩ := by
  rcases h with rfl | rfl | rfl
  · exact ⟨.atMost, rfl⟩
  · exact ⟨.doubleEquals, rfl⟩
  · exact ⟨.atLeast, rfl⟩

/-- The kind and the length of a token outside quotes that starts with `c`. -/
def PlainReading (last : Option Kind) (c : Char) (cs : List Char) (r : Kind × Nat) : Prop :=
  Plain last (cs.drop r.2) ⟨r.1, String.ofList (c :: cs.take r.2)⟩

/-- Outside quotes the scanner reads one of these tokens. -/
theorem plainReading_plainLexeme (last : Option Kind) (c : Char) (cs : List Char) :
    PlainReading last c cs (plainLexeme last c cs) := by
  have hrule := Scan.plainRead_plainLexeme last c cs
  rw [Scan.PlainRead] at hrule
  generalize plainLexeme last c cs = r at hrule
  obtain ⟨k, m⟩ := r
  cases hrule with
  | subtraction hc hlast =>
    subst hc
    refine .operator .minus ?_
    rintro rfl
    exact nomatch hlast
  | negative _ _ _ | numeral _ => exact .number _
  | name hlast _ _ =>
    refine .reference _ hlast ?_
    rw [drop_length_takeWhile]
    exact Scan.brace_of_mem_dropWhile cs
  | pair hlast hc hcs =>
    obtain ⟨rest, rfl⟩ := List.head?_eq_some_iff.mp hcs
    obtain ⟨o, ho⟩ := exists_operator_of_eq (by simpa [Scan.comparisons] using hc)
    exact (congrArg _ ho).mp (.operator o hlast)
  | symbol hlast hc _ _ =>
    obtain ⟨o, ho⟩ := exists_operator_of_mem hc
    exact (congrArg _ ho).mp (.operator o hlast)
  | call _ _ hnext =>
    refine .function _ ?_
    rw [drop_length_takeWhile]
    exact hnext
  | mark hk _ =>
    simp only [Scan.marks, List.mem_cons, Prod.mk.injEq, List.not_mem_nil, or_false] at hk
    rcases hk with ⟨rfl, rfl⟩ | ⟨rfl, rfl⟩ | ⟨rfl, rfl⟩ | ⟨rfl, rfl⟩ | ⟨rfl, rfl⟩
    · exact .leftBracket
    · exact .rightBracket
    · exact .leftBrace
    · exact .rightBrace
    · exact .separator
  | blank _ _ => exact .blank _
  | unknown _ _ _ _ _ _ => exact .unknown _

/-! ## Steps of the scan -/

theorem OutsideQuotes.lastKind {last : Option Kind} (h : OutsideQuotes last)
    {rest : List Char} {t : Token} (ht : Plain last rest t) : OutsideQuotes (t.lastKind last) := by
  cases ht with
  | blank s => exact h
  | _ => exact ⟨nofun, nofun, nofun⟩

theorem tokensAfter_cons {last : Option Kind} {c : Char} {cs : List Char} {k : Kind} {m : Nat}
    (h : lexeme last c cs = (k, m)) (hk : closesEmpty last k = false) :
    tokensAfter last (c :: cs) =
      ⟨k, String.ofList (c :: cs.take m)⟩ ::
        tokensAfter (Token.lastKind last ⟨k, String.ofList (c :: cs.take m)⟩) (cs.drop m) := by
  rw [tokensAfter, h]
  simp [hk]

/-- A bracket, a brace or a comma where no literal is open. -/
theorem tokensAfter_of_mark {last : Option Kind} {c : Char} {k : Kind}
    (hopen : ∀ q : Quote, last ≠ some q.opening.kind)
    (hlast : last = some .openBrace → Scan.inName c = false) (h : (c, k) ∈ Scan.marks)
    (cs : List Char) :
    tokensAfter last (c :: cs) = ⟨k, String.ofList [c]⟩ :: tokensAfter (some k) cs := by
  have hmark : (∀ q : Quote, c ≠ q.mark) ∧ (∀ last, closesEmpty last k = false) ∧ k ≠ .blank := by
    simp only [Scan.marks, List.mem_cons, Prod.mk.injEq, List.not_mem_nil, or_false] at h
    rcases h with ⟨rfl, rfl⟩ | ⟨rfl, rfl⟩ | ⟨rfl, rfl⟩ | ⟨rfl, rfl⟩ | ⟨rfl, rfl⟩ <;>
      exact ⟨fun q => by cases q <;> decide, fun last => by simp [closesEmpty], by decide⟩
  obtain ⟨hquote, hclosed, hblank⟩ := hmark
  have hrule : Scan.Rule last c cs k 0 := .plain hquote hopen (.mark h hlast)
  rw [tokensAfter_cons hrule.lexeme_eq (hclosed last), Token.lastKind,
    if_neg (by simpa [Token.isBlank] using hblank)]
  rfl

/-- A token of another kind opens no literal. -/
theorem ne_opening_of_not_mem {k : Kind} (h : k ∉ [Kind.openQuote, .openDoubleQuote])
    (q : Quote) : some k ≠ some q.opening.kind := by
  rintro ⟨⟩
  cases q <;> exact h (by decide)

/-- A quote outside quotes opens a literal. -/
theorem tokensAfter_mark {last : Option Kind} (h : OutsideQuotes last) (q : Quote)
    (cs : List Char) :
    tokensAfter last (q.mark :: cs) = q.opening :: tokensAfter (some q.opening.kind) cs := by
  have hlex : lexeme last q.mark cs = (q.opening.kind, 0) := by
    cases q <;> simp [lexeme, Quote.mark, Quote.opening, h.quoted, h.single, h.double]
  have hk : closesEmpty last q.opening.kind = false := by
    cases q <;> simp [closesEmpty, Quote.opening]
  rw [tokensAfter_cons hlex hk]
  cases q <;> rfl

/-- Outside quotes the next token is a plain one, and the scan goes on behind it. -/
theorem tokensAfter_plain {last : Option Kind} (h : OutsideQuotes last) {c : Char}
    (hc : ∀ q : Quote, c ≠ q.mark) (cs : List Char) :
    ∃ t rest, Plain last rest t ∧ rest.length ≤ cs.length ∧
      tokensAfter last (c :: cs) = t :: tokensAfter (t.lastKind last) rest := by
  have hlex : lexeme last c cs = plainLexeme last c cs := by
    have hs : c ≠ '\'' := hc .single
    have hd : c ≠ '"' := hc .double
    simp [lexeme, h.single, h.double, hs, hd]
  have hk : closesEmpty last (plainLexeme last c cs).1 = false := by
    simp [closesEmpty, h.single, h.double]
  refine ⟨_, _, plainReading_plainLexeme last c cs, ?_, tokensAfter_cons hlex hk⟩
  rw [List.length_drop]
  omega

/-! ## Literals -/

/-- The content of a literal ends at its quote or at the end of the text. -/
theorem drop_contentLength (quote : Char) (cs : List Char) :
    cs.drop (contentLength quote cs) = [] ∨
      ∃ rest, cs.drop (contentLength quote cs) = quote :: rest := by
  fun_induction contentLength quote cs with
  | case1 => exact .inl rfl
  | case2 => exact .inr ⟨_, rfl⟩
  | case3 => exact .inl rfl
  | case4 => exact .inr ⟨_, rfl⟩
  | case5 d cs _ ih => exact ih
  | case6 c d cs _ _ ih => exact ih

theorem contentLength_pos {quote c : Char} (h : c ≠ quote) (cs : List Char) :
    0 < contentLength quote (c :: cs) := by
  cases cs with
  | nil => simp [contentLength, h]
  | cons d cs =>
    rw [contentLength, if_neg h]
    split <;> omega

/-- A quote behind the content of a literal closes it. -/
theorem tokensAfter_closing (q : Quote) (cs : List Char) :
    tokensAfter (some .quoted) (q.mark :: cs) =
      q.closing :: tokensAfter (some q.closing.kind) cs := by
  have hlex : lexeme (some .quoted) q.mark cs = (q.closing.kind, 0) := by
    cases q <;> simp [lexeme, Quote.mark, Quote.closing]
  rw [tokensAfter_cons hlex rfl]
  cases q <;> rfl

/-- A quote directly behind an opening one closes an empty literal. -/
theorem tokensAfter_empty (q : Quote) (cs : List Char) :
    tokensAfter (some q.opening.kind) (q.mark :: cs) =
      ⟨.quoted, ""⟩ :: q.closing :: tokensAfter (some q.closing.kind) cs := by
  have hlex : lexeme (some q.opening.kind) q.mark cs = (q.closing.kind, 0) := by
    cases q <;> simp [lexeme, Quote.mark, Quote.opening, Quote.closing]
  have hk : closesEmpty (some q.opening.kind) q.closing.kind = true := by
    cases q <;> rfl
  rw [tokensAfter, hlex]
  simp only [hk, if_true]
  cases q <;> rfl

/-- Behind an opening quote there is nothing, a text up to the end, or a text and its
    closing quote. -/
theorem tokensAfter_literal (q : Quote) (cs : List Char) :
    tokensAfter (some q.opening.kind) cs = [] ∨
      (∃ s, tokensAfter (some q.opening.kind) cs = [⟨.quoted, s⟩]) ∨
      ∃ s rest, rest.length < cs.length ∧ tokensAfter (some q.opening.kind) cs =
        ⟨.quoted, s⟩ :: q.closing :: tokensAfter (some q.closing.kind) rest := by
  cases cs with
  | nil =>
    left
    rw [tokensAfter]
  | cons c cs =>
    by_cases hc : c = q.mark
    · subst hc
      exact .inr (.inr ⟨"", cs, Nat.lt_succ_self _, tokensAfter_empty q cs⟩)
    -- The content is never empty here, so that the scan goes on right behind it.
    · have hlex : lexeme (some q.opening.kind) c cs =
          (.quoted, contentLength q.mark (c :: cs) - 1) := by
        cases q <;> simp [lexeme, Quote.mark, Quote.opening] at hc ⊢ <;> simp [hc]
      have hk : closesEmpty (some q.opening.kind) .quoted = false := by cases q <;> rfl
      have hpos := contentLength_pos hc cs
      have hdrop : cs.drop (contentLength q.mark (c :: cs) - 1) =
          (c :: cs).drop (contentLength q.mark (c :: cs)) := by
        conv => rhs; rw [← Nat.sub_add_cancel hpos, List.drop_succ_cons]
      have htoks := tokensAfter_cons hlex hk
      rw [hdrop] at htoks
      rcases drop_contentLength q.mark (c :: cs) with hnil | ⟨rest, hrest⟩
      · rw [hnil, tokensAfter] at htoks
        exact .inr (.inl ⟨_, htoks⟩)
      · rw [hrest] at htoks
        refine .inr (.inr ⟨_, rest, ?_, htoks.trans (congrArg _ (tokensAfter_closing q rest))⟩)
        have hlen := congrArg List.length hrest
        rw [List.length_drop, List.length_cons, List.length_cons] at hlen
        rw [List.length_cons]
        omega

/-! ## Calls -/

/-- Blanks are one token, which does not count as the last kind. -/
theorem tokensAfter_blank {last : Option Kind} (hbrace : last ≠ some .openBrace)
    (hopen : ∀ q : Quote, last ≠ some q.opening.kind) {c : Char} (h : isBlank c = true)
    (cs : List Char) :
    ∃ s, tokensAfter last (c :: cs) = ⟨.blank, s⟩ :: tokensAfter last (cs.dropWhile isBlank) := by
  have hrule : Scan.Rule last c cs .blank (cs.takeWhile isBlank).length :=
    .plain (fun q => Text.ne_of_isBlank h (by cases q <;> rfl)) hopen (.blank hbrace h)
  have htoks := tokensAfter_cons hrule.lexeme_eq (by simp [closesEmpty])
  rw [drop_length_takeWhile] at htoks
  exact ⟨_, htoks⟩

/-- Behind a function name comes its bracket, with at most one blank token between them. -/
theorem tokensAfter_function {cs : List Char} (h : bracketNext cs = true) :
    ∃ rest, rest.length < cs.length ∧
      (tokensAfter (some .function) cs = .leftBracket :: tokensAfter (some .openBracket) rest ∨
        ∃ s, tokensAfter (some .function) cs =
          ⟨.blank, s⟩ :: .leftBracket :: tokensAfter (some .openBracket) rest) := by
  -- The look-ahead passes over blanks to the bracket; the scan then takes them as one token.
  obtain ⟨rest, hrest⟩ : ∃ rest, cs.dropWhile isBlank = '(' :: rest := by
    unfold bracketNext at h
    split at h
    · exact ⟨_, ‹_›⟩
    · exact nomatch h
  have hopen := ne_opening_of_not_mem (k := .function) (by decide)
  have hbracket : tokensAfter (some .function) ('(' :: rest) =
      .leftBracket :: tokensAfter (some .openBracket) rest :=
    tokensAfter_of_mark (k := .openBracket) hopen nofun (by decide) rest
  have hlen : rest.length < cs.length := by
    have := (List.dropWhile_sublist (l := cs) isBlank).length_le
    rw [hrest, List.length_cons] at this
    exact this
  refine ⟨rest, hlen, ?_⟩
  cases cs with
  | nil => exact nomatch hrest
  | cons c cs =>
    by_cases hc : isBlank c = true
    · rw [List.dropWhile_cons_of_pos hc] at hrest
      have hbrace : some Kind.function ≠ some .openBrace := nofun
      obtain ⟨s, hs⟩ := tokensAfter_blank hbrace hopen hc cs
      exact .inr ⟨s, by rw [hs, hrest, hbracket]⟩
    · rw [List.dropWhile_cons_of_neg hc] at hrest
      rw [hrest]
      exact .inl hbracket

/-- A function name has its bracket behind it, with blanks between them or not. -/
theorem significant_of_bracketNext {cs : List Char} (h : bracketNext cs = true) :
    ∃ rest, rest.length < cs.length ∧ significant (tokensAfter (some .function) cs) =
      .leftBracket :: significant (tokensAfter (some .openBracket) rest) := by
  obtain ⟨rest, hlen, hcs | ⟨s, hcs⟩⟩ := tokensAfter_function h
  · exact ⟨rest, hlen, by rw [hcs]; rfl⟩
  · exact ⟨rest, hlen, by rw [hcs]; rfl⟩

/-! ## The form of every scan -/

/-- A brace behind a name is the next token. -/
theorem tokensAfter_reference {cs : List Char} (h : ∀ c ∈ cs.head?, c = '\x7b' ∨ c = '\x7d') :
    tokensAfter (some .reference) cs = [] ∨
      ∃ ts, tokensAfter (some .reference) cs = .leftBrace :: ts ∨
        tokensAfter (some .reference) cs = .rightBrace :: ts := by
  cases cs with
  | nil => exact .inl (by rw [tokensAfter])
  | cons c cs =>
    have hplain := ne_opening_of_not_mem (k := .reference) (by decide)
    rcases h c rfl with rfl | rfl
    · have hopens := tokensAfter_of_mark (c := '\x7b') (k := .openBrace) hplain (by decide)
        (by decide) cs
      exact .inr ⟨_, .inl hopens⟩
    · have hcloses := tokensAfter_of_mark (c := '\x7d') (k := .closeBrace) hplain (by decide)
        (by decide) cs
      exact .inr ⟨_, .inr hcloses⟩

theorem head?_significant_of_brace {cs : List Char}
    (h : ∀ c ∈ cs.head?, c = '\x7b' ∨ c = '\x7d') :
    ∀ t ∈ (significant (tokensAfter (some .reference) cs)).head?,
      t = .leftBrace ∨ t = .rightBrace := by
  rcases tokensAfter_reference h with hcs | ⟨ts, hcs | hcs⟩
  · simp [hcs, significant]
  · rw [hcs]
    rintro t ⟨⟩
    exact .inl rfl
  · rw [hcs]
    rintro t ⟨⟩
    exact .inr rfl

theorem Quote.outsideQuotes_closing (q : Quote) : OutsideQuotes (some q.closing.kind) := by
  cases q <;> exact ⟨by decide, by decide, by decide⟩

theorem Quote.lexed_closing {q : Quote} {ts : List Token}
    (h : Lexed (some q.closing.kind = some .openBrace) ts) : Lexed false ts := by
  cases q <;> exact h

/-- The tokens behind any token outside quotes. -/
theorem lexed_tokensAfter (last : Option Kind) (h : OutsideQuotes last) (cs : List Char) :
    Lexed (last = some .openBrace) (significant (tokensAfter last cs)) := by
  -- On the length of the text: a literal and a call take several tokens at once, so that
  -- the scan does not go on from the very next one.
  generalize hn : cs.length = n
  induction n using Nat.strongRecOn generalizing last cs with
  | ind n ih =>
    cases cs with
    | nil =>
      rw [tokensAfter]
      exact .nil
    | cons c cs =>
      rw [List.length_cons] at hn
      by_cases hq : ∃ q : Quote, c = q.mark
      · obtain ⟨q, rfl⟩ := hq
        rw [tokensAfter_mark h]
        rcases tokensAfter_literal q cs with hcs | ⟨s, hcs⟩ | ⟨s, rest, hlen, hcs⟩
        · have htoks : significant [q.opening] = [q.opening] := by cases q <;> rfl
          rw [hcs, htoks]
          exact .openQuote q
        · have htoks : significant [q.opening, ⟨.quoted, s⟩] = [q.opening, ⟨.quoted, s⟩] := by
            cases q <;> rfl
          rw [hcs, htoks]
          exact .openLiteral q s
        · have hrest := ih rest.length (by omega) _ q.outsideQuotes_closing rest rfl
          have htoks (ts : List Token) : significant (q.opening :: ⟨.quoted, s⟩ :: q.closing :: ts) =
              q.opening :: ⟨.quoted, s⟩ :: q.closing :: significant ts := by cases q <;> rfl
          rw [hcs, htoks]
          exact .literal q s (Quote.lexed_closing hrest)
      · obtain ⟨t, rest, ht, hlen, hcs⟩ := tokensAfter_plain h (fun q hc => hq ⟨q, hc⟩) cs
        have hrest := ih rest.length (by omega) _ (h.lastKind ht) rest rfl
        rw [hcs]
        cases ht with
        | number s => exact .number s hrest
        | operator o ho =>
          rw [decide_eq_false ho]
          exact .operator o hrest
        | function f hf =>
          -- The bracket that the scanner has looked for is the next token.
          obtain ⟨inner, hlen', hinner⟩ := significant_of_bracketNext hf
          have hopen : OutsideQuotes (some .openBracket) := ⟨by decide, by decide, by decide⟩
          have hin := ih inner.length (by omega) _ hopen inner rfl
          show Lexed _ (⟨.function, f⟩ :: significant (tokensAfter (some .function) rest))
          rw [hinner]
          exact .function f hin
        | leftBracket => exact .leftBracket hrest
        | rightBracket => exact .rightBracket hrest
        | separator => exact .separator hrest
        | leftBrace => exact .leftBrace hrest
        | rightBrace => exact .rightBrace hrest
        | reference n hlast hbrace =>
          subst hlast
          exact .reference n (head?_significant_of_brace hbrace) hrest
        | blank s => exact hrest
        | unknown s => exact .unknown s hrest

/-- **Scan.** The tokens of every formula have this form. -/
theorem lexed_tokenize (formula : String) : Lexed false (significant (tokenize formula)) :=
  lexed_tokensAfter none ⟨by decide, by decide, by decide⟩ formula.toList

end Formulary
