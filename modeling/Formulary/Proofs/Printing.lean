/-
  Formulary.Proofs.Printing

  Syntax trees printed as formulas and scanned again.

  `printed` writes a tree down with a blank on either side of every operator and behind every
  comma and every sign, and with no other blank. A tree is `Spelled` if its numerals, names
  and literals are texts that a formula can have in their place; of a literal this asks that
  its own quote is escaped wherever it stands in it.

  The scan knows nothing of the grammar: what it reads depends on the kind of the last token
  and on the characters ahead. So what is proved of every part of a tree is that it is read
  back where a value may start (`Fresh`) and with any text behind it that does not go on a
  numeral or a word (`Detached`), and that the scan then goes on with the kind of its last
  token (`Reread`). From this `tokenize_printed` says that scanning undoes printing.
-/

import Formulary.Proofs.BracedNames
import Formulary.Proofs.SignedOperands
import Formulary.Proofs.Vocabulary

namespace Formulary

open Text (isBlank isDigit isLetter)
/-! ## Printing -/

namespace Token

/-- A single blank. -/
def space : Token := ⟨.blank, " "⟩

/-- The characters that tokens cover. -/
def chars (ts : List Token) : List Char := (joined ts).toList

@[simp] theorem chars_nil : chars [] = [] := by simp [chars]

@[simp] theorem chars_cons (t : Token) (ts : List Token) :
    chars (t :: ts) = t.text.toList ++ chars ts := by
  simp [chars]

@[simp] theorem chars_append (ts us : List Token) : chars (ts ++ us) = chars ts ++ chars us := by
  simp [chars, joined_append]

end Token

open Token (significant chars)

/-- A sign with a blank behind it. -/
def Sign.printed : Option Sign → List Token
  | none => []
  | some s => [(Operator.ofSign s).token, .space]

mutual

/-- A syntax tree as tokens, with blanks around operators and behind commas and signs. -/
def Operand.printed : Operand → List Token
  | .number s => [⟨.number, s⟩]
  | .literal q s => [q.opening, ⟨.quoted, s⟩, q.closing]
  | .reference n => [.leftBrace, ⟨.reference, n⟩, .rightBrace]
  | .emptyGroup => [.leftBracket, .rightBracket]
  | .group es => .leftBracket :: (es.printed ++ [.rightBracket])
  | .emptyCall f => [⟨.function, f⟩, .leftBracket, .rightBracket]
  | .call f es => ⟨.function, f⟩ :: .leftBracket :: (es.printed ++ [.rightBracket])

def Phrase.printed : Phrase → List Token
  | .single sign a => Sign.printed sign ++ a.printed
  | .joined sign a o e =>
    Sign.printed sign ++ (a.printed ++ .space :: o.token :: .space :: e.printed)

def Phrases.printed : Phrases → List Token
  | .one e => e.printed
  | .more e es => e.printed ++ .separator :: .space :: es.printed

end

/-! ## Spelling -/

/-- A letter with characters of a class behind it. -/
def LetterThen (p : Char → Bool) : List Char → Prop
  | [] => False
  | c :: cs => isLetter c = true ∧ ∀ d ∈ cs, p d = true

/-- A text where a backslash stands in front of every mark of the quote, and every backslash has
    a character behind it. -/
inductive Quote.Escaped (q : Quote) : List Char → Prop where
  | nil : q.Escaped []
  | plain {c : Char} {cs : List Char} : c ≠ q.mark → c ≠ '\\' → q.Escaped cs → q.Escaped (c :: cs)
  | escape {c : Char} {cs : List Char} : q.Escaped cs → q.Escaped ('\\' :: c :: cs)

mutual

/-- A syntax tree whose texts can be written in a formula as they are. -/
def Operand.Spelled : Operand → Prop
  | .number s => IsNumeral s.toList
  | .literal q s => q.Escaped s.toList
  | .reference n => LetterThen Scan.inName n.toList
  | .emptyGroup => True
  | .group es => es.Spelled
  | .emptyCall f => LetterThen Scan.inWord f.toList
  | .call f es => LetterThen Scan.inWord f.toList ∧ es.Spelled

def Phrase.Spelled : Phrase → Prop
  | .single _ a => a.Spelled
  | .joined _ a _ e => a.Spelled ∧ e.Spelled

def Phrases.Spelled : Phrases → Prop
  | .one e => e.Spelled
  | .more e es => e.Spelled ∧ es.Spelled

end

/-! ### Literals -/

section Literals

variable {q : Quote} {c : Char} {cs : List Char}

theorem Quote.Escaped.ne_mark (h : q.Escaped (c :: cs)) : c ≠ q.mark := by
  cases h with
  | plain hc _ _ => exact hc
  | escape _ => cases q <;> decide

theorem contentLength_cons {quote : Char} (hc : c ≠ quote) (hescape : c ≠ '\\') (cs : List Char) :
    contentLength quote (c :: cs) = contentLength quote cs + 1 := by
  cases cs <;> simp [contentLength, hc, hescape]

/-- The content of a literal ends at the first quote that is not escaped. -/
theorem Quote.Escaped.contentLength_eq (h : q.Escaped cs) (v : List Char) :
    contentLength q.mark (cs ++ q.mark :: v) = cs.length := by
  have hescape : '\\' ≠ q.mark := by cases q <;> decide
  induction h with
  | nil => exact contentLength_mark q.mark v
  | plain hc hbackslash _ ih =>
    rw [List.cons_append, contentLength_cons hc hbackslash, ih, List.length_cons]
  | escape _ ih =>
    rw [List.cons_append, List.cons_append, contentLength, if_neg hescape, if_pos rfl, ih]
    rfl

end Literals

/-! ## Blanks that printing puts in -/

theorem Sign.significant_printed (sign : Option Sign) :
    significant (Sign.printed sign) = Sign.tokens false sign := by
  cases sign <;> rfl

theorem significant_bracketed {ts us : List Token} (h : significant ts = us) :
    significant (ts ++ [.rightBracket]) = us ++ [.rightBracket] := by
  rw [Token.significant_append, h]
  rfl

mutual

/-- Printing puts in blanks and leaves the tokens of the tree. -/
theorem Operand.significant_printed : ∀ a : Operand, significant a.printed = a.tokens false
  | .number _ | .reference _ | .emptyGroup | .emptyCall _ => rfl
  | .literal q _ => by cases q <;> rfl
  | .group es => congrArg (Token.leftBracket :: ·) (significant_bracketed es.significant_printed)
  | .call f es => congrArg (Token.mk .function f :: Token.leftBracket :: ·)
    (significant_bracketed es.significant_printed)

theorem Phrase.significant_printed : ∀ e : Phrase, significant e.printed = e.tokens false
  | .single sign a => by
    rw [Phrase.printed, Phrase.tokens, Token.significant_append, Sign.significant_printed,
      a.significant_printed]
  | .joined sign a o e => by
    have hbehind : significant (.space :: o.token :: .space :: e.printed) =
        o.token :: e.tokens false := congrArg (o.token :: ·) e.significant_printed
    rw [Phrase.printed, Phrase.tokens, Token.significant_append, Token.significant_append,
      Sign.significant_printed, a.significant_printed, hbehind]

theorem Phrases.significant_printed : ∀ es : Phrases, significant es.printed = es.tokens false
  | .one e => e.significant_printed
  | .more e es => by
    have hbehind : significant (.separator :: .space :: es.printed) =
        .separator :: es.tokens false := congrArg (Token.separator :: ·) es.significant_printed
    rw [Phrases.printed, Phrases.tokens, Token.significant_append, e.significant_printed, hbehind]

end

/-! ## The start of a printed tree -/

theorem exists_of_letterThen {p : Char → Bool} {s : String} (h : LetterThen p s.toList) :
    ∃ c cs, s.toList = c :: cs ∧ isLetter c = true ∧ ∀ d ∈ cs, p d = true := by
  cases hs : s.toList with
  | nil =>
    rw [hs] at h
    exact h.elim
  | cons c cs =>
    rw [hs] at h
    exact ⟨c, cs, rfl, h⟩

/-- A text that starts with a character that is not blank. -/
def StartsInk (cs : List Char) : Prop := ∃ c rest, cs = c :: rest ∧ isBlank c = false

theorem StartsInk.append {cs : List Char} (h : StartsInk cs) (v : List Char) :
    StartsInk (cs ++ v) := by
  obtain ⟨c, rest, rfl, hc⟩ := h
  exact ⟨c, rest ++ v, rfl, hc⟩

theorem StartsInk.chars_cons {t : Token} (h : StartsInk t.text.toList) (ts : List Token) :
    StartsInk (chars (t :: ts)) := by
  rw [Token.chars_cons]
  exact h.append _

theorem StartsInk.stops {cs : List Char} (h : StartsInk cs) : Stops isBlank cs := by
  obtain ⟨c, rest, rfl, hc⟩ := h
  rintro _ ⟨⟩
  exact hc

theorem Operator.startsInk_symbol (o : Operator) : StartsInk o.symbol.toList := by
  cases o <;> exact ⟨_, _, rfl, rfl⟩

theorem startsInk_of_letterThen {p : Char → Bool} {s : String} (h : LetterThen p s.toList) :
    StartsInk s.toList := by
  obtain ⟨c, cs, hs, hc, -⟩ := exists_of_letterThen h
  exact ⟨c, cs, hs, Bool.eq_false_iff.mpr fun hb =>
    Bool.false_ne_true ((Text.isLetter_of_isBlank hb).symm.trans hc)⟩

theorem IsNumeral.startsInk {cs : List Char} (h : IsNumeral cs) : StartsInk cs := by
  obtain ⟨c, rest, rfl⟩ := List.exists_cons_of_ne_nil h.ne_nil
  exact ⟨c, rest, rfl, h.isBlank_of_mem c List.mem_cons_self⟩

theorem Operand.startsInk (a : Operand) (h : a.Spelled) : StartsInk (chars a.printed) := by
  cases a with
  | number s => exact (IsNumeral.startsInk h).chars_cons []
  | literal q s => cases q <;> exact StartsInk.chars_cons ⟨_, _, rfl, rfl⟩ _
  | reference n | emptyGroup | group es => exact StartsInk.chars_cons ⟨_, _, rfl, rfl⟩ _
  | emptyCall f => exact (startsInk_of_letterThen h).chars_cons _
  | call f es => exact (startsInk_of_letterThen h.1).chars_cons _

theorem Sign.startsInk_printed (sign : Option Sign) {ts : List Token} (h : StartsInk (chars ts)) :
    StartsInk (chars (Sign.printed sign ++ ts)) := by
  cases sign with
  | none => exact h
  | some s =>
    have hsymbol : StartsInk (Operator.ofSign s).token.text.toList :=
      (Operator.ofSign s).startsInk_symbol
    exact hsymbol.chars_cons _

theorem Phrase.startsInk (e : Phrase) (h : e.Spelled) : StartsInk (chars e.printed) := by
  cases e with
  | single sign a => exact Sign.startsInk_printed sign (a.startsInk h)
  | joined sign a o e =>
    refine Sign.startsInk_printed sign ?_
    rw [Token.chars_append]
    exact (a.startsInk h.1).append _

theorem Phrases.startsInk (es : Phrases) (h : es.Spelled) : StartsInk (chars es.printed) := by
  cases es with
  | one e => exact e.startsInk h
  | more e es =>
    rw [Phrases.printed, Token.chars_append]
    exact (e.startsInk h.1).append _

namespace Scan

/-! ## Tokens read back -/

/-- The scan of the text of some tokens, with `v` behind it, gives these tokens and comes to `v`
    behind a token of kind `last'`. -/
def Reread (v : List Char) (last : Option Kind) (ts : List Token) (last' : Option Kind) : Prop :=
  tokensAfter last (chars ts ++ v) = ts ++ tokensAfter last' v

variable {last mid last' : Option Kind} {c : Char} {cs v : List Char} {t : Token}
  {ts us : List Token}

theorem Reread.nil : Reread v last [] last := rfl

theorem Reread.append (h : Reread (chars us ++ v) last ts mid) (h' : Reread v mid us last') :
    Reread v last (ts ++ us) last' := by
  rw [Reread] at h h' ⊢
  rw [Token.chars_append, List.append_assoc, h, h', List.append_assoc]

theorem Reread.cons (h : Reread (chars ts ++ v) last [t] mid) (h' : Reread v mid ts last') :
    Reread v last (t :: ts) last' :=
  h.append h'

/-- A token that a rule reads as a whole. -/
theorem reread_of_rule {k : Kind} {s : String} (hs : s.toList = c :: cs)
    (hrule : Rule last c (cs ++ v) k cs.length) (hclosed : closesEmpty last k = false)
    (hk : k ≠ .blank) : Reread v last [⟨k, s⟩] (some k) := by
  have htext : String.ofList (c :: cs) = s := by rw [← hs, String.ofList_toList]
  have hlast : Token.lastKind last ⟨k, s⟩ = some k := if_neg (by simpa [Token.isBlank] using hk)
  rw [Reread, Token.chars_cons, hs, Token.chars_nil, List.append_nil, List.cons_append,
    tokensAfter_cons hrule.lexeme_eq hclosed, List.take_left, List.drop_left, htext, hlast]
  rfl

/-! ### Marks, blanks and operators -/

theorem fresh_comma : Fresh (some .comma) := ⟨⟨nofun, nofun, nofun⟩, nofun, rfl⟩

theorem nothingOpen_function : NothingOpen (some .function) :=
  ⟨nofun, ne_opening_of_not_mem (by decide)⟩

theorem nothingOpen_reference : NothingOpen (some .reference) :=
  ⟨nofun, ne_opening_of_not_mem (by decide)⟩

theorem reread_mark (h : NothingOpen last) {k : Kind} (hmark : (c, k) ∈ marks) :
    Reread v last [⟨k, String.ofList [c]⟩] (some k) := by
  have hchars : chars [⟨k, String.ofList [c]⟩] = [c] := by simp
  rw [Reread, hchars]
  exact tokensAfter_of_mark h.opening (absurd · h.brace) hmark v

theorem reread_leftBracket (h : NothingOpen last) :
    Reread v last [.leftBracket] (some .openBracket) :=
  reread_mark (c := '(') h (by decide)

theorem reread_rightBracket (h : NothingOpen last) :
    Reread v last [.rightBracket] (some .closeBracket) :=
  reread_mark (c := ')') h (by decide)

/-- A blank with no other one behind it. -/
theorem reread_space (h : NothingOpen last) (hv : Stops isBlank v) :
    Reread v last [.space] last := by
  have hrule : Rule last ' ' v .blank (v.takeWhile isBlank).length :=
    .plain (fun q => by cases q <;> decide) h.opening (.blank h.brace (by decide))
  have hrun : v.takeWhile isBlank = [] := takeWhile_append_of_stops (x := []) hv
  have hchars : chars [.space] = [' '] := by simp [Token.space]
  rw [hrun] at hrule
  rw [Reread, hchars, List.singleton_append,
    tokensAfter_cons hrule.lexeme_eq (by simp [closesEmpty])]
  rfl

/-- An operator or a sign. -/
theorem reread_operator (h : NothingOpen last) (o : Operator) (hv : v.head? = some ' ') :
    Reread v last [o.token] (some .operator) := by
  obtain ⟨rest, rfl⟩ := List.head?_eq_some_iff.mp hv
  have hchars : chars [o.token] = o.symbol.toList := by simp [Operator.token]
  rw [Reread, hchars]
  exact tokensAfter_operator h o rest

/-- Behind a sign a value may start as well as in front of it. -/
theorem reread_sign (sign : Option Sign) (h : Fresh last) (hv : Stops isBlank v) :
    ∃ mid, Fresh mid ∧ Reread v last (Sign.printed sign) mid := by
  cases sign with
  | none => exact ⟨last, h, .nil⟩
  | some s =>
    have hsign : Reread (chars [.space] ++ v) last [(Operator.ofSign s).token] (some .operator) :=
      reread_operator h.nothingOpen _ (by simp [Token.space])
    exact ⟨_, fresh_operator, hsign.cons (reread_space fresh_operator.nothingOpen hv)⟩

/-! ### Numerals, names and literals -/

theorem ne_mark_of_isLetter (hc : isLetter c = true) (q : Quote) : c ≠ q.mark :=
  Text.ne_of_isLetter hc (by cases q <;> rfl)

/-- A minus is part of a numeral where a value may start. -/
theorem rule_numeral (h : IsNumeral (c :: cs)) (hlast : Fresh last) (hv : Detached [] v) :
    Rule last c (cs ++ v) .number cs.length := by
  have hquote (q : Quote) : c ≠ q.mark := by
    rintro rfl
    exact h.not_mem (by cases q <;> rfl) List.mem_cons_self
  refine .plain hquote hlast.ne_opening ?_
  cases h with
  | unsigned h =>
    have hlen : numeralLength (c :: (cs ++ v)) = cs.length + 1 := h.numeralLength_append hv
    have hrule : PlainRule last c (cs ++ v) .number (numeralLength (c :: (cs ++ v)) - 1) :=
      .numeral (by omega)
    rwa [hlen] at hrule
  | negative h =>
    -- Behind a value the minus would be an operator.
    have hlen : numeralLength (cs ++ v) = cs.length := h.numeralLength_append hv
    have hpos : 0 < numeralLength (cs ++ v) := by
      rw [hlen]
      exact List.length_pos_iff.mpr h.ne_nil
    have hrule : PlainRule last '-' (cs ++ v) .number (numeralLength (cs ++ v)) :=
      .negative rfl hpos hlast.minus
    rwa [hlen] at hrule

theorem reread_number {s : String} (hs : IsNumeral s.toList) (hlast : Fresh last)
    (hv : Detached [] v) : Reread v last [⟨.number, s⟩] (some .number) := by
  obtain ⟨c, cs, hcs⟩ := List.exists_cons_of_ne_nil hs.ne_nil
  rw [hcs] at hs
  exact reread_of_rule hcs (rule_numeral hs hlast hv) (by simp [closesEmpty]) (by decide)

/-- A function name in front of its bracket. -/
theorem reread_function {f : String} (hf : LetterThen inWord f.toList) (h : NothingOpen last)
    (hv : v.head? = some '(') : Reread v last [⟨.function, f⟩] (some .function) := by
  obtain ⟨rest, rfl⟩ := List.head?_eq_some_iff.mp hv
  obtain ⟨c, cs, hf, hc, hcs⟩ := exists_of_letterThen hf
  have hstops : Stops inWord ('(' :: rest) := by
    rintro _ ⟨⟩
    rfl
  have hnext : bracketNext ((cs ++ '(' :: rest).dropWhile inWord) = true := by
    rw [dropWhile_append_of_forall hcs hstops]
    rfl
  have hrule : Rule last c (cs ++ '(' :: rest) .function
      ((cs ++ '(' :: rest).takeWhile inWord).length :=
    .plain (ne_mark_of_isLetter hc) h.opening (.call h.brace hc hnext)
  rw [takeWhile_append_of_forall hcs hstops] at hrule
  exact reread_of_rule hf hrule (by simp [closesEmpty]) (by decide)

/-- A text that starts with a letter is a name, whatever follows. -/
theorem nameable_of_isLetter (hc : isLetter c = true) (cs : List Char) : Nameable (c :: cs) where
  quote q h := ne_mark_of_isLetter hc q (Option.some.inj h)
  numeral := not_startsNumeral (Text.isDigit_of_isLetter hc) (Text.ne_of_isLetter hc rfl)
    (Text.ne_of_isLetter hc rfl) cs

theorem reread_reference {n : String} (hn : LetterThen inName n.toList) (h : NothingOpen last) :
    Reread v last [.leftBrace, ⟨.reference, n⟩, .rightBrace] (some .closeBrace) := by
  obtain ⟨c, cs, hn, hc, hcs⟩ := exists_of_letterThen hn
  have hopen : Reread (chars [⟨.reference, n⟩, .rightBrace] ++ v) last [.leftBrace]
      (some .openBrace) := reread_mark (c := '\x7b') h (by decide)
  have hclose : Reread v (some .reference) [.rightBrace] (some .closeBrace) :=
    reread_mark (c := '\x7d') nothingOpen_reference (by decide)
  have hinName : ∀ d ∈ c :: cs, inName d = true :=
    List.forall_mem_cons.mpr ⟨inName_of_isLetter hc, hcs⟩
  have hrule : Rule (some .openBrace) c (cs ++ '\x7d' :: v) .reference cs.length :=
    (nameable_of_isLetter hc _).rule_of_brace hinName
  have hname : Reread (chars [.rightBrace] ++ v) (some .openBrace) [⟨.reference, n⟩]
      (some .reference) := by
    have hbrace : chars [.rightBrace] ++ v = '\x7d' :: v := by simp [Token.rightBrace]
    rw [hbrace]
    exact reread_of_rule hn hrule rfl (by decide)
  exact hopen.cons (hname.cons hclose)

/-- The content of a literal and the quote that closes it. -/
theorem tokensAfter_content {q : Quote} (h : q.Escaped cs) (v : List Char) :
    tokensAfter (some q.opening.kind) (cs ++ q.mark :: v) =
      ⟨.quoted, String.ofList cs⟩ :: q.closing :: tokensAfter (some q.closing.kind) v := by
  have hlen := h.contentLength_eq v
  cases cs with
  | nil => exact tokensAfter_empty q v
  | cons c cs =>
    -- The rule for content counts the characters beyond the first.
    have hrule : Rule (some q.opening.kind) c (cs ++ q.mark :: v) .quoted
        (contentLength q.mark (c :: (cs ++ q.mark :: v)) - 1) :=
      .content q h.ne_mark rfl
    rw [← List.cons_append, hlen, List.length_cons, Nat.add_sub_cancel] at hrule
    have hclosed : closesEmpty (some q.opening.kind) .quoted = false := by cases q <;> rfl
    rw [List.cons_append, tokensAfter_cons hrule.lexeme_eq hclosed, List.take_left, List.drop_left]
    exact congrArg (_ :: ·) (tokensAfter_closing q v)

theorem reread_literal {q : Quote} {s : String} (hs : q.Escaped s.toList) (h : Fresh last) :
    Reread v last [q.opening, ⟨.quoted, s⟩, q.closing] (some q.closing.kind) := by
  have hchars : chars [q.opening, ⟨.quoted, s⟩, q.closing] ++ v =
      q.mark :: (s.toList ++ q.mark :: v) := by
    cases q <;> simp [Quote.opening, Quote.closing, Quote.mark]
  rw [Reread, hchars, tokensAfter_mark h.outside, tokensAfter_content hs, String.ofList_toList]
  rfl

/-! ## Trees read back -/

theorem detached_nil : Detached [] [] := ⟨nofun, nofun, rfl⟩

theorem detached_comma (cs : List Char) : Detached [] (',' :: cs) := .of_cons rfl (by decide) rfl

end Scan

open Scan

mutual

/-- A printed operand is read back where a value may start. -/
theorem Operand.reread : ∀ (a : Operand), a.Spelled → ∀ {last : Option Kind} {v : List Char},
    Fresh last → Detached [] v → Reread v last a.printed (some a.endKind)
  | .number _, ha, _, _, hlast, hv => reread_number ha hlast hv
  | .literal _ _, ha, _, _, hlast, _ => reread_literal ha hlast
  | .reference _, ha, _, _, hlast, _ => reread_reference ha hlast.nothingOpen
  | .emptyGroup, _, _, _, hlast, _ =>
    (reread_leftBracket hlast.nothingOpen).cons (reread_rightBracket fresh_openBracket.nothingOpen)
  | .group es, ha, _, v, hlast, _ =>
    (reread_leftBracket hlast.nothingOpen).cons (es.reread_bracketed ha v)
  | .emptyCall _, ha, _, _, hlast, _ =>
    (reread_function ha hlast.nothingOpen (by simp [Token.leftBracket])).cons
      ((reread_leftBracket nothingOpen_function).cons
        (reread_rightBracket fresh_openBracket.nothingOpen))
  | .call _ es, ha, _, v, hlast, _ =>
    (reread_function ha.1 hlast.nothingOpen (by simp [Token.leftBracket])).cons
      ((reread_leftBracket nothingOpen_function).cons (es.reread_bracketed ha.2 v))

theorem Phrase.reread : ∀ (e : Phrase), e.Spelled → ∀ {last : Option Kind} {v : List Char},
    Fresh last → Detached [] v → Reread v last e.printed (some e.endKind)
  | .single sign a, ha, _, v, hlast, hv => by
    obtain ⟨mid, hmid, hsign⟩ := reread_sign sign hlast ((a.startsInk ha).append v).stops
    exact hsign.append (a.reread ha hmid hv)
  | .joined sign a o e, h, _, v, hlast, hv => by
    -- Every part is read back in front of the text of the parts behind it. The blank keeps the
    -- operator off a numeral or a word before it.
    have htext : chars (.space :: o.token :: .space :: e.printed) ++ v =
        ' ' :: (o.symbol.toList ++ ' ' :: (chars e.printed ++ v)) := by
      simp [Token.space, Operator.token]
    have hend : NothingOpen (some a.endKind) := nothingOpen_of_endsValue a.endsValue_endKind
    have hink : StartsInk (chars (a.printed ++ .space :: o.token :: .space :: e.printed)) := by
      rw [Token.chars_append]
      exact (a.startsInk h.1).append _
    obtain ⟨mid, hmid, hsign⟩ := reread_sign sign hlast (hink.append v).stops
    have hleft : Reread (chars (.space :: o.token :: .space :: e.printed) ++ v) mid a.printed
        (some a.endKind) := by
      rw [htext]
      exact a.reread h.1 hmid (detached_operator o _)
    have hbefore : Reread (chars (o.token :: .space :: e.printed) ++ v) (some a.endKind) [.space]
        (some a.endKind) := by
      have hsymbol : StartsInk o.token.text.toList := o.startsInk_symbol
      exact reread_space hend ((hsymbol.chars_cons _).append v).stops
    have hoperator : Reread (chars (.space :: e.printed) ++ v) (some a.endKind) [o.token]
        (some .operator) := reread_operator hend o (by simp [Token.space])
    have hbehind : Reread (chars e.printed ++ v) (some .operator) [.space] (some .operator) :=
      reread_space fresh_operator.nothingOpen ((e.startsInk h.2).append v).stops
    exact hsign.append (hleft.append (hbefore.cons (hoperator.cons (hbehind.cons
      (e.reread h.2 fresh_operator hv)))))

theorem Phrases.reread : ∀ (es : Phrases), es.Spelled → ∀ {last : Option Kind} {v : List Char},
    Fresh last → Detached [] v → Reread v last es.printed (some es.endKind)
  | .one e, h, _, _, hlast, hv => e.reread h hlast hv
  | .more e es, h, last, v, hlast, hv => by
    have htext : chars (.separator :: .space :: es.printed) ++ v =
        ',' :: ' ' :: (chars es.printed ++ v) := by
      simp [Token.space, Token.separator]
    have hfirst : Reread (chars (.separator :: .space :: es.printed) ++ v) last e.printed
        (some e.endKind) := by
      rw [htext]
      exact e.reread h.1 hlast (detached_comma _)
    have hcomma : Reread (chars (.space :: es.printed) ++ v) (some e.endKind) [.separator]
        (some .comma) :=
      reread_mark (c := ',') (nothingOpen_of_endsValue e.endsValue_endKind) (by decide)
    have hspace : Reread (chars es.printed ++ v) (some .comma) [.space] (some .comma) :=
      reread_space fresh_comma.nothingOpen ((es.startsInk h.2).append v).stops
    exact hfirst.append (hcomma.cons (hspace.cons (es.reread h.2 fresh_comma hv)))

/-- Phrases behind an opening bracket, with their closing bracket. -/
theorem Phrases.reread_bracketed (es : Phrases) (h : es.Spelled) (v : List Char) :
    Reread v (some .openBracket) (es.printed ++ [.rightBracket]) (some .closeBracket) := by
  have htext : chars [.rightBracket] ++ v = ')' :: v := by simp [Token.rightBracket]
  have hinner : Reread (chars [.rightBracket] ++ v) (some .openBracket) es.printed
      (some es.endKind) := by
    rw [htext]
    exact es.reread h fresh_openBracket (detached_rightBracket v)
  exact hinner.append (reread_rightBracket (nothingOpen_of_endsValue es.endsValue_endKind))

end

/-- **Printing.** Scanning undoes printing: the text of a syntax tree, with one blank on either side
    of every operator and behind every comma and every sign, is scanned into the tokens of the
    tree and these blanks. -/
theorem Phrase.tokenize_printed (e : Phrase) (h : e.Spelled) :
    tokenize (Token.joined e.printed) = e.printed ∧ significant e.printed = e.tokens false := by
  have hreread : Reread [] none e.printed (some e.endKind) := e.reread h fresh_none detached_nil
  rw [Reread, List.append_nil, tokensAfter, List.append_nil] at hreread
  exact ⟨hreread, e.significant_printed⟩

/-- A call with a sign, a negative number and an escaped quote in it. -/
theorem Phrase.tokenize_printed_call :
    ∃ e : Phrase, e.Spelled ∧
      Token.joined e.printed = "- max(-.5, 'it\\'s') <= (\x7ba b\x7d ^ 2)" ∧
      tokenize "- max(-.5, 'it\\'s') <= (\x7ba b\x7d ^ 2)" = e.printed ∧
      significant e.printed = e.tokens false := by
  let e : Phrase := .joined (some .minus)
    (.call "max" (.more (.single none (.number "-.5"))
      (.one (.single none (.literal .single "it\\'s"))))) .atMost
    (.single none (.group (.one (.joined none (.reference "a b") .power
      (.single none (.number "2"))))))
  have hcall : LetterThen inWord "max".toList := by
    simp [LetterThen, isLetter, inWord]
  have hnumber : IsNumeral "-.5".toList :=
    .negative (@IsUnsigned.places [] ['5'] (by simp [AllDigits]) (by decide)
      (by simp [AllDigits, Text.isDigit]))
  have hliteral : Quote.single.Escaped "it\\'s".toList := by
    have htext : "it\\'s".toList = ['i', 't', '\\', '\'', 's'] := by decide
    rw [htext]
    exact .plain (by decide) (by decide) (.plain (by decide) (by decide)
      (.escape (.plain (by decide) (by decide) .nil)))
  have hreference : LetterThen inName "a b".toList := by
    simp [LetterThen, isLetter, inName]
  have hexponent : IsNumeral "2".toList :=
    .unsigned (@IsUnsigned.whole ['2'] (by decide) (by simp [AllDigits, Text.isDigit]))
  have hspelled : e.Spelled := ⟨⟨hcall, hnumber, hliteral⟩, hreference, hexponent⟩
  have htext : Token.joined e.printed = "- max(-.5, 'it\\'s') <= (\x7ba b\x7d ^ 2)" := by
    decide +kernel
  obtain ⟨htokens, hsignificant⟩ := e.tokenize_printed hspelled
  rw [htext] at htokens
  exact ⟨e, hspelled, htext, htokens, hsignificant⟩

end Formulary
