/-
  Formulary.Proofs.Rules

  The rules of the scan, one by one.

  `Rule last c cs k m` says that a rule reads a token of kind `k` at the start of `c :: cs`
  that covers `m` characters beyond `c`. Each constructor states what its rule asks of the
  text and of the last kind, so that it can be used without going through the rules that are
  tried before it. `rule_iff` says that the rules and the scan agree: some rule applies to
  every text, and a rule that applies determines the token.
-/

import Formulary.Proofs.Grammar
import Formulary.Token.Lexeme

namespace Formulary

open Text (isBlank isDigit isLetter)

/-! ## Characters -/

theorem Text.ne_of_isBlank {c d : Char} (h : isBlank c = true) (hd : isBlank d = false) :
    c ≠ d := by
  rintro rfl
  exact Bool.false_ne_true (hd.symm.trans h)

theorem Text.isDigit_of_isBlank {c : Char} (h : isBlank c = true) : isDigit c = false := by
  simp only [isBlank, isDigit, Char.le_def, UInt32.le_iff_toNat_le, Char.toNat] at h ⊢
  simp at h ⊢
  omega

theorem Text.isLetter_of_isBlank {c : Char} (h : isBlank c = true) : isLetter c = false := by
  simp only [isBlank, isLetter, Char.le_def, UInt32.le_iff_toNat_le, Char.toNat] at h ⊢
  simp at h ⊢
  omega

theorem Text.ne_of_isLetter {c d : Char} (h : isLetter c = true) (hd : isLetter d = false) :
    c ≠ d := by
  rintro rfl
  exact Bool.false_ne_true (hd.symm.trans h)

theorem Text.isDigit_of_isLetter {c : Char} (h : isLetter c = true) : isDigit c = false := by
  simp only [isLetter, isDigit, Char.le_def, UInt32.le_iff_toNat_le] at h ⊢
  simp at h ⊢
  omega

theorem numeralLength_of_not_isDigit {c : Char} (cs : List Char) (h : isDigit c = false)
    (hc : c ≠ '.') : numeralLength (c :: cs) = 0 := by
  simp [numeralLength, h, hc]

/-! ## Quotes -/

/-- The character of a quote. -/
def Quote.mark : Quote → Char
  | single => '\''
  | double => '"'

/-- No literal is open behind a token of this kind. -/
structure OutsideQuotes (last : Option Kind) : Prop where
  quoted : last ≠ some .quoted
  single : last ≠ some .openQuote
  double : last ≠ some .openDoubleQuote

namespace Scan

/-! ## Rules outside quotes -/

/-- A numeral, with or without a minus sign, stands at the start. -/
def StartsNumeral (cs : List Char) : Prop :=
  0 < numeralLength cs ∨ cs.head? = some '-' ∧ 0 < numeralLength cs.tail

/-- The symbols of one character. -/
def symbols : List Char := ['-', '+', '*', '/', '^', '<', '=', '>']

/-- The symbols that an equals sign may follow. -/
def comparisons : List Char := ['<', '=', '>']

/-- Brackets, braces and the comma, with their kinds. -/
def marks : List (Char × Kind) :=
  [('(', .openBracket), (')', .closeBracket), ('\x7b', .openBrace), ('\x7d', .closeBrace),
    (',', .comma)]

/-- What may stand in a function name. -/
def inWord (d : Char) : Bool := isLetter d || isDigit d

/-- What may stand in a reference name. -/
def inName (d : Char) : Bool := d ≠ '\x7b' && d ≠ '\x7d'

/-- The token outside quotes at the start of `c :: cs`: its kind and its length beyond `c`. -/
inductive PlainRule (last : Option Kind) (c : Char) (cs : List Char) : Kind → Nat → Prop where
  /-- A minus behind an operand, with a numeral behind it or not. -/
  | subtraction : c = '-' → last.any minusIsOperatorAfter = true → PlainRule last c cs .operator 0
  | negative : c = '-' → 0 < numeralLength cs → last.any minusIsOperatorAfter = false →
    PlainRule last c cs .number (numeralLength cs)
  | numeral : 0 < numeralLength (c :: cs) →
    PlainRule last c cs .number (numeralLength (c :: cs) - 1)
  | name : last = some .openBrace → inName c = true → ¬StartsNumeral (c :: cs) →
    PlainRule last c cs .reference (cs.takeWhile inName).length
  | pair : last ≠ some .openBrace → c ∈ comparisons → cs.head? = some '=' →
    PlainRule last c cs .operator 1
  | symbol : last ≠ some .openBrace → c ∈ symbols → ¬StartsNumeral (c :: cs) →
    (c ∈ comparisons → cs.head? ≠ some '=') → PlainRule last c cs .operator 0
  | call : last ≠ some .openBrace → isLetter c = true → bracketNext (cs.dropWhile inWord) = true →
    PlainRule last c cs .function (cs.takeWhile inWord).length
  | mark {k : Kind} : (c, k) ∈ marks → (last = some .openBrace → inName c = false) →
    PlainRule last c cs k 0
  | blank : last ≠ some .openBrace → isBlank c = true →
    PlainRule last c cs .blank (cs.takeWhile isBlank).length
  | unknown : last ≠ some .openBrace → numeralLength (c :: cs) = 0 → c ∉ symbols →
    (isLetter c = true → bracketNext (cs.dropWhile inWord) = false) →
    (∀ k, (c, k) ∉ marks) → isBlank c = false → PlainRule last c cs .unknown 0

variable {last : Option Kind} {c : Char} {cs : List Char} {k : Kind} {m : Nat}

theorem classes_of_mem_symbols (h : c ∈ symbols) :
    isDigit c = false ∧ c ≠ '.' ∧ isLetter c = false ∧ isBlank c = false := by
  simp only [symbols, List.mem_cons, List.not_mem_nil, or_false] at h
  rcases h with rfl | rfl | rfl | rfl | rfl | rfl | rfl | rfl <;>
    exact ⟨rfl, by decide, rfl, rfl⟩

theorem classes_of_mem_marks (h : (c, k) ∈ marks) :
    isDigit c = false ∧ c ≠ '.' ∧ c ∉ symbols ∧ isLetter c = false ∧ isBlank c = false := by
  simp only [marks, List.mem_cons, Prod.mk.injEq, List.not_mem_nil, or_false] at h
  rcases h with ⟨rfl, -⟩ | ⟨rfl, -⟩ | ⟨rfl, -⟩ | ⟨rfl, -⟩ | ⟨rfl, -⟩ <;>
    exact ⟨rfl, by decide, by decide, rfl, rfl⟩

theorem inWord_of_isBlank (h : isBlank c = true) : inWord c = false := by
  rw [inWord, Text.isLetter_of_isBlank h, Text.isDigit_of_isBlank h]
  rfl

theorem inName_of_isLetter (h : isLetter c = true) : inName c = true := by
  have hopen : c ≠ '\x7b' := Text.ne_of_isLetter h rfl
  have hclose : c ≠ '\x7d' := Text.ne_of_isLetter h rfl
  simp [inName, hopen, hclose]

/-- A name ends in front of a brace. -/
theorem brace_of_mem_dropWhile (cs : List Char) :
    ∀ d ∈ (cs.dropWhile inName).head?, d = '\x7b' ∨ d = '\x7d' := by
  intro d hd
  have hstop := List.head?_dropWhile_not inName cs
  rw [hd] at hstop
  simpa [inName, Decidable.or_iff_not_imp_left] using hstop

theorem ne_of_mem_symbols {d : Char} (h : c ∉ symbols) (hd : d ∈ symbols) : c ≠ d := by
  rintro rfl
  exact h hd

theorem numeralLength_of_mem_symbols (h : c ∈ symbols) (cs : List Char) :
    numeralLength (c :: cs) = 0 :=
  numeralLength_of_not_isDigit cs (classes_of_mem_symbols h).1 (classes_of_mem_symbols h).2.1

/-- A numeral without its sign starts with no operator. -/
theorem not_mem_symbols_of_numeralLength_pos (h : 0 < numeralLength (c :: cs)) : c ∉ symbols := by
  intro hc
  rw [numeralLength_of_mem_symbols hc] at h
  exact Nat.lt_irrefl 0 h

/-- The rules in the order in which they are tried. -/
theorem plainLexeme_eq (last : Option Kind) (c : Char) (cs : List Char) :
    plainLexeme last c cs =
      if (c = '-' ∧ 0 < numeralLength cs) ∧ last.any minusIsOperatorAfter = true then (.operator, 0)
      else if c = '-' ∧ 0 < numeralLength cs then (.number, numeralLength cs)
      else if 0 < numeralLength (c :: cs) then (.number, numeralLength (c :: cs) - 1)
      else if last = some .openBrace ∧ inName c = true then
        (.reference, (cs.takeWhile inName).length)
      else if c ∈ comparisons ∧ cs.head? = some '=' then (.operator, 1)
      else if c ∈ symbols then (.operator, 0)
      else if isLetter c = true ∧ bracketNext (cs.dropWhile inWord) = true then
        (.function, (cs.takeWhile inWord).length)
      else if c = '(' then (.openBracket, 0)
      else if c = ')' then (.closeBracket, 0)
      else if c = '\x7b' then (.openBrace, 0)
      else if c = '\x7d' then (.closeBrace, 0)
      else if c = ',' then (.comma, 0)
      else if isBlank c = true then (.blank, (cs.takeWhile isBlank).length)
      else (.unknown, 0) := by
  have hname : inName = fun d => d ≠ '\x7b' && d ≠ '\x7d' := rfl
  have hword : inWord = fun d => isLetter d || isDigit d := rfl
  simp [plainLexeme, hname, hword, comparisons, symbols, and_assoc, or_assoc]

theorem inName_of_mem_symbols (h : c ∈ symbols) : inName c = true := by
  simp only [symbols, List.mem_cons, List.not_mem_nil, or_false] at h
  rcases h with rfl | rfl | rfl | rfl | rfl | rfl | rfl | rfl <;> rfl

theorem mem_symbols_of_mem_comparisons (h : c ∈ comparisons) : c ∈ symbols := by
  simp only [comparisons, List.mem_cons, List.not_mem_nil, or_false] at h
  rcases h with rfl | rfl | rfl <;> decide

/-- The kind and the length of a token outside quotes that starts with `c`. -/
def PlainRead (last : Option Kind) (c : Char) (cs : List Char) (r : Kind × Nat) : Prop :=
  PlainRule last c cs r.1 r.2

/-- Outside quotes the scan follows the rules. -/
theorem plainRead_plainLexeme (last : Option Kind) (c : Char) (cs : List Char) :
    PlainRead last c cs (plainLexeme last c cs) := by
  -- The rules stand in their order, each one with the failure of those before it.
  rw [plainLexeme_eq]
  apply iteInduction
  · rintro ⟨⟨hc, -⟩, hlast⟩
    exact .subtraction hc hlast
  intro hsubtraction
  apply iteInduction
  · rintro ⟨hc, hpos⟩
    exact .negative hc hpos (Bool.eq_false_iff.mpr fun h => hsubtraction ⟨⟨hc, hpos⟩, h⟩)
  intro hnegative
  apply iteInduction
  · intro hpos
    exact .numeral hpos
  intro hnumeral
  have hstarts : ¬StartsNumeral (c :: cs) := by
    rintro (h | ⟨hc, h⟩)
    · exact hnumeral h
    · exact hnegative ⟨Option.some.inj hc, h⟩
  apply iteInduction
  · rintro ⟨hlast, hc⟩
    exact .name hlast hc hstarts
  intro hname
  -- From here on nothing but a brace stands behind an opening brace.
  have hbrace (hc : inName c = true) : last ≠ some .openBrace := fun h => hname ⟨h, hc⟩
  apply iteInduction
  · rintro ⟨hc, hcs⟩
    have hsymbol := mem_symbols_of_mem_comparisons hc
    exact .pair (hbrace (inName_of_mem_symbols hsymbol)) hc hcs
  intro hpair
  apply iteInduction
  · intro hc
    exact .symbol (hbrace (inName_of_mem_symbols hc)) hc hstarts fun h hcs => hpair ⟨h, hcs⟩
  intro hsymbol
  apply iteInduction
  · rintro ⟨hc, hnext⟩
    exact .call (hbrace (inName_of_isLetter hc)) hc hnext
  intro hcall
  apply iteInduction
  · rintro rfl
    exact .mark (by simp [marks]) (fun h => absurd h (hbrace rfl))
  intro h₁
  apply iteInduction
  · rintro rfl
    exact .mark (by simp [marks]) (fun h => absurd h (hbrace rfl))
  intro h₂
  apply iteInduction
  · rintro rfl
    exact .mark (by simp [marks]) (fun h => rfl)
  intro h₃
  apply iteInduction
  · rintro rfl
    exact .mark (by simp [marks]) (fun h => rfl)
  intro h₄
  apply iteInduction
  · rintro rfl
    exact .mark (by simp [marks]) (fun h => absurd h (hbrace rfl))
  intro h₅
  have hc : inName c = true := by simp [inName, h₃, h₄]
  apply iteInduction
  · intro hblank
    exact .blank (hbrace hc) hblank
  intro hblank
  have hmark (k : Kind) : (c, k) ∉ marks := by simp [marks, h₁, h₂, h₃, h₄, h₅]
  exact .unknown (hbrace hc) (Nat.eq_zero_of_not_pos hnumeral) hsymbol
    (fun h => Bool.eq_false_iff.mpr fun hnext => hcall ⟨h, hnext⟩) hmark
    (Bool.eq_false_iff.mpr hblank)

theorem not_startsNumeral_cons :
    ¬StartsNumeral (c :: cs) ↔
      ¬0 < numeralLength (c :: cs) ∧ ¬(c = '-' ∧ 0 < numeralLength cs) := by
  simp [StartsNumeral]

/-- Only digits, points and minus signs start a numeral. -/
theorem not_startsNumeral (hdigit : isDigit c = false) (hpoint : c ≠ '.') (hminus : c ≠ '-')
    (cs : List Char) : ¬StartsNumeral (c :: cs) := by
  rw [not_startsNumeral_cons, numeralLength_of_not_isDigit cs hdigit hpoint]
  exact ⟨Nat.lt_irrefl 0, fun h => hminus h.1⟩

/-- The rules tried behind numerals and names. -/
theorem plainLexeme_of_not_startsNumeral (hstarts : ¬StartsNumeral (c :: cs))
    (hlast : last = some .openBrace → inName c = false) :
    plainLexeme last c cs =
      if c ∈ comparisons ∧ cs.head? = some '=' then (.operator, 1)
      else if c ∈ symbols then (.operator, 0)
      else if isLetter c = true ∧ bracketNext (cs.dropWhile inWord) = true then
        (.function, (cs.takeWhile inWord).length)
      else if c = '(' then (.openBracket, 0)
      else if c = ')' then (.closeBracket, 0)
      else if c = '\x7b' then (.openBrace, 0)
      else if c = '\x7d' then (.closeBrace, 0)
      else if c = ',' then (.comma, 0)
      else if isBlank c = true then (.blank, (cs.takeWhile isBlank).length)
      else (.unknown, 0) := by
  obtain ⟨hnumeral, hsigned⟩ := not_startsNumeral_cons.mp hstarts
  rw [plainLexeme_eq, if_neg (fun h => hsigned h.1), if_neg hsigned, if_neg hnumeral,
    if_neg fun h => Bool.false_ne_true ((hlast h.1).symm.trans h.2)]

/-- A rule determines the token. -/
theorem PlainRule.plainLexeme_eq (h : PlainRule last c cs k m) :
    plainLexeme last c cs = (k, m) := by
  -- In each case the conditions of the rules tried before this one fail.
  cases h with
  | subtraction hc hlast =>
    subst hc
    have hbrace : last = some .openBrace → inName '-' = false := by
      rintro rfl
      exact nomatch hlast
    by_cases hpos : 0 < numeralLength cs
    · rw [Scan.plainLexeme_eq, if_pos ⟨⟨rfl, hpos⟩, hlast⟩]
    · have hnum := numeralLength_of_mem_symbols (c := '-') (by decide) cs
      have hstarts : ¬StartsNumeral ('-' :: cs) :=
        not_startsNumeral_cons.mpr ⟨by omega, fun h => hpos h.2⟩
      rw [plainLexeme_of_not_startsNumeral hstarts hbrace, if_neg (fun h => nomatch h.1),
        if_pos (by decide)]
  | negative hc hpos hlast =>
    subst hc
    rw [Scan.plainLexeme_eq, if_neg (by simp [hlast]), if_pos ⟨rfl, hpos⟩]
  | numeral hpos =>
    have hc : c ≠ '-' :=
      ne_of_mem_symbols (not_mem_symbols_of_numeralLength_pos hpos) (by decide)
    rw [Scan.plainLexeme_eq, if_neg (fun h => hc h.1.1), if_neg (fun h => hc h.1), if_pos hpos]
  | name hlast hc hstarts =>
    obtain ⟨hnumeral, hsigned⟩ := not_startsNumeral_cons.mp hstarts
    rw [Scan.plainLexeme_eq, if_neg (fun h => hsigned h.1), if_neg hsigned, if_neg hnumeral,
      if_pos ⟨hlast, hc⟩]
  | pair hlast hc hcs =>
    have hsymbol := classes_of_mem_symbols (mem_symbols_of_mem_comparisons hc)
    have hminus : c ≠ '-' := by
      rintro rfl
      exact nomatch hc
    have hstarts := not_startsNumeral hsymbol.1 hsymbol.2.1 hminus cs
    rw [plainLexeme_of_not_startsNumeral hstarts (absurd · hlast), if_pos ⟨hc, hcs⟩]
  | symbol hlast hc hstarts hpair =>
    rw [plainLexeme_of_not_startsNumeral hstarts (absurd · hlast), if_neg fun h => hpair h.1 h.2,
      if_pos hc]
  | call hlast hc hnext =>
    have hne (d : Char) (hd : isLetter d = false) : c ≠ d := Text.ne_of_isLetter hc hd
    have hstarts := not_startsNumeral (Text.isDigit_of_isLetter hc) (hne '.' rfl) (hne '-' rfl) cs
    have hsymbol : c ∉ symbols := fun h =>
      Bool.false_ne_true ((classes_of_mem_symbols h).2.2.1.symm.trans hc)
    rw [plainLexeme_of_not_startsNumeral hstarts (absurd · hlast),
      if_neg fun h => hsymbol (mem_symbols_of_mem_comparisons h.1), if_neg hsymbol,
      if_pos ⟨hc, hnext⟩]
  | @mark k hk hlast =>
    obtain ⟨hdigit, hpoint, hsymbol, hletter, -⟩ := classes_of_mem_marks hk
    have hstarts := not_startsNumeral hdigit hpoint (ne_of_mem_symbols hsymbol (by decide)) cs
    rw [plainLexeme_of_not_startsNumeral hstarts hlast,
      if_neg fun h => hsymbol (mem_symbols_of_mem_comparisons h.1), if_neg hsymbol,
      if_neg fun h => Bool.false_ne_true (hletter.symm.trans h.1)]
    simp only [marks, List.mem_cons, Prod.mk.injEq, List.not_mem_nil, or_false] at hk
    rcases hk with ⟨rfl, rfl⟩ | ⟨rfl, rfl⟩ | ⟨rfl, rfl⟩ | ⟨rfl, rfl⟩ | ⟨rfl, rfl⟩ <;> rfl
  | blank hlast hc =>
    have hne (d : Char) (hd : isBlank d = false) : c ≠ d := Text.ne_of_isBlank hc hd
    have hstarts := not_startsNumeral (Text.isDigit_of_isBlank hc) (hne '.' rfl) (hne '-' rfl) cs
    have hsymbol : c ∉ symbols := fun h =>
      Bool.false_ne_true ((classes_of_mem_symbols h).2.2.2.symm.trans hc)
    rw [plainLexeme_of_not_startsNumeral hstarts (absurd · hlast),
      if_neg fun h => hsymbol (mem_symbols_of_mem_comparisons h.1), if_neg hsymbol,
      if_neg fun h => Bool.false_ne_true ((Text.isLetter_of_isBlank hc).symm.trans h.1),
      if_neg (hne '(' rfl), if_neg (hne ')' rfl), if_neg (hne '\x7b' rfl), if_neg (hne '\x7d' rfl),
      if_neg (hne ',' rfl), if_pos hc]
  | unknown hlast hnumeral hsymbol hcall hmark hblank =>
    have hstarts : ¬StartsNumeral (c :: cs) := not_startsNumeral_cons.mpr
      ⟨by omega, fun h => ne_of_mem_symbols hsymbol (by decide) h.1⟩
    have hne {d : Char} {k : Kind} (hd : (d, k) ∈ marks) : c ≠ d := by
      rintro rfl
      exact hmark k hd
    rw [plainLexeme_of_not_startsNumeral hstarts (absurd · hlast),
      if_neg fun h => hsymbol (mem_symbols_of_mem_comparisons h.1), if_neg hsymbol,
      if_neg fun h => Bool.false_ne_true ((hcall h.1).symm.trans h.2),
      if_neg (hne (k := .openBracket) (by decide)), if_neg (hne (k := .closeBracket) (by decide)),
      if_neg (hne (k := .openBrace) (by decide)), if_neg (hne (k := .closeBrace) (by decide)),
      if_neg (hne (k := .comma) (by decide)), if_neg (by simp [hblank])]

/-! ## All rules -/

/-- The token at the start of `c :: cs`: its kind and its length beyond `c`. -/
inductive Rule (last : Option Kind) (c : Char) (cs : List Char) : Kind → Nat → Prop where
  | opening (q : Quote) : c = q.mark → OutsideQuotes last → Rule last c cs q.opening.kind 0
  | closing (q : Quote) : c = q.mark → last = some .quoted ∨ last = some q.opening.kind →
    Rule last c cs q.closing.kind 0
  | content (q : Quote) : c ≠ q.mark → last = some q.opening.kind →
    Rule last c cs .quoted (contentLength q.mark (c :: cs) - 1)
  | plain {k : Kind} {m : Nat} : (∀ q : Quote, c ≠ q.mark) →
    (∀ q : Quote, last ≠ some q.opening.kind) → PlainRule last c cs k m → Rule last c cs k m

theorem Rule.lexeme_eq (h : Rule last c cs k m) : lexeme last c cs = (k, m) := by
  cases h with
  | opening q hc hlast =>
    subst hc
    cases q <;> simp [lexeme, Quote.mark, Quote.opening, hlast.quoted, hlast.single, hlast.double]
  | closing q hc hlast =>
    subst hc
    cases q <;> rcases hlast with rfl | rfl <;>
      simp [lexeme, Quote.mark, Quote.opening, Quote.closing]
  | content q hc hlast =>
    subst hlast
    cases q <;> simp [lexeme, Quote.mark, Quote.opening] at hc ⊢ <;> simp [hc]
  | plain hc hlast hplain =>
    have hs := hc .single
    have hd := hc .double
    have hsl := hlast .single
    have hdl := hlast .double
    simp only [Quote.mark, Quote.opening, ne_eq] at hs hd hsl hdl
    simp [lexeme, hs, hd, hsl, hdl, hplain.plainLexeme_eq]

/-- Some rule applies to every text, whatever comes before it. -/
theorem exists_rule (last : Option Kind) (c : Char) (cs : List Char) :
    ∃ k m, Rule last c cs k m := by
  by_cases hopen : ∃ q : Quote, last = some q.opening.kind
  · obtain ⟨q, hlast⟩ := hopen
    by_cases hc : c = q.mark
    · exact ⟨_, _, .closing q hc (.inr hlast)⟩
    · exact ⟨_, _, .content q hc hlast⟩
  · have hopen (q : Quote) : last ≠ some q.opening.kind := fun h => hopen ⟨q, h⟩
    by_cases hc : ∃ q : Quote, c = q.mark
    · obtain ⟨q, hc⟩ := hc
      by_cases hlast : last = some .quoted
      · exact ⟨_, _, .closing q hc (.inl hlast)⟩
      · exact ⟨_, _, .opening q hc ⟨hlast, hopen .single, hopen .double⟩⟩
    · exact ⟨_, _, .plain (fun q h => hc ⟨q, h⟩) hopen (plainRead_plainLexeme last c cs)⟩

/-- **Rules.** The scan reads what its rules say and nothing else. -/
theorem rule_iff : Rule last c cs k m ↔ lexeme last c cs = (k, m) := by
  constructor
  · exact Rule.lexeme_eq
  · intro h
    obtain ⟨k', m', hrule⟩ := exists_rule last c cs
    obtain ⟨rfl, rfl⟩ := Prod.mk.inj (h.symm.trans hrule.lexeme_eq)
    exact hrule

/-- Kinds of quotes and of what stands between them. -/
def literalKinds : List Kind :=
  [.openQuote, .closeQuote, .openDoubleQuote, .closeDoubleQuote, .quoted]

/-- A token of any other kind is read by a rule outside quotes. -/
theorem Rule.plain_inv (h : Rule last c cs k m) (hk : k ∉ literalKinds) :
    (∀ q : Quote, c ≠ q.mark) ∧ (∀ q : Quote, last ≠ some q.opening.kind) ∧
      PlainRule last c cs k m := by
  cases h with
  | opening q _ _ | closing q _ _ => cases q <;> exact absurd (by decide) hk
  | content q _ _ => exact absurd (by decide) hk
  | plain hc hlast hplain => exact ⟨hc, hlast, hplain⟩

theorem rule_lexeme (last : Option Kind) (c : Char) (cs : List Char) :
    Rule last c cs (lexeme last c cs).1 (lexeme last c cs).2 :=
  rule_iff.mpr rfl

end Scan

end Formulary
