/-
  Formulary.Proofs.Placement

  Which tokens stand next to each other in a scan.

  The scan remembers no more than the kind of the last token that is not blank. `Ready` says
  what this kind nevertheless tells of the tokens read so far and of the text that comes
  next: behind an opening quote or brace nothing has been read since, and behind the content
  of a literal its own quote follows. That is enough for a step to give its token the
  neighbours that `Placed` asks for, and it holds again behind that token (`Places`);
  `tokenize_placed` is the result for all tokens of a formula, malformed ones included.
-/

import Formulary.Proofs.Scanning

namespace Formulary

open Text (isBlank)

/-! ## Quotes -/

theorem Quote.mark_inj {p q : Quote} (h : p.mark = q.mark) : p = q := by
  cases p <;> cases q <;> first | rfl | exact nomatch h

theorem Quote.lastKind_opening (q : Quote) (last : Option Kind) :
    q.opening.lastKind last = some q.opening.kind := by cases q <;> rfl

theorem Quote.lastKind_closing (q : Quote) (last : Option Kind) :
    q.closing.lastKind last = some q.closing.kind := by cases q <;> rfl

namespace Scan

/-! ## Neighbours -/

/-- What stands on the two sides of a token, directly before it and directly behind it. -/
def Placed (front : List Token) (t : Token) (back : List Token) : Prop :=
  match t.kind with
  | .quoted =>
    ∃ q : Quote, (∃ f, front = f ++ [q.opening]) ∧ (back = [] ∨ ∃ b, back = q.closing :: b)
  | .closeQuote => ∃ f s, front = f ++ [Quote.single.opening, ⟨.quoted, s⟩]
  | .closeDoubleQuote => ∃ f s, front = f ++ [Quote.double.opening, ⟨.quoted, s⟩]
  | .openQuote | .openDoubleQuote => back = [] ∨ ∃ s b, back = ⟨.quoted, s⟩ :: b
  | .reference =>
    (t.text ≠ "" ∧ '\x7b' ∉ t.text.toList ∧ '\x7d' ∉ t.text.toList) ∧
      (∃ f, front = f ++ [.leftBrace]) ∧
      (back = [] ∨ ∃ b, back = .leftBrace :: b ∨ back = .rightBrace :: b)
  | .function => ∃ b, back = .leftBracket :: b ∨ ∃ s, back = ⟨.blank, s⟩ :: .leftBracket :: b
  | .blank | .openBrace => ∀ u ∈ back.head?, u.kind ≠ .blank
  | _ => True

/-- Every token of a list that stands behind `front` has the right neighbours. -/
def AllPlaced (front ts : List Token) : Prop :=
  ∀ a t b, ts = a ++ t :: b → Placed (front ++ a) t b

theorem AllPlaced.nil (front : List Token) : AllPlaced front [] := by
  intro a t b h
  simp at h

theorem AllPlaced.cons {front ts : List Token} {t : Token} (ht : Placed front t ts)
    (hts : AllPlaced (front ++ [t]) ts) : AllPlaced front (t :: ts) := by
  intro a u b h
  cases a with
  | nil =>
    obtain ⟨rfl, rfl⟩ := List.cons.inj h
    rwa [List.append_nil]
  | cons v a =>
    obtain ⟨rfl, rfl⟩ := List.cons.inj h
    have hu := hts a u b rfl
    rwa [List.append_assoc, List.singleton_append] at hu

/-! ## The next token -/

/-- Behind the content of a literal comes its closing quote, or nothing. -/
theorem tokensAfter_quoted {q : Quote} {cs : List Char} (h : ∀ c ∈ cs.head?, c = q.mark) :
    tokensAfter (some .quoted) cs = [] ∨ ∃ b, tokensAfter (some .quoted) cs = q.closing :: b := by
  cases cs with
  | nil => exact .inl (by rw [tokensAfter])
  | cons c cs =>
    obtain rfl := h c rfl
    exact .inr ⟨_, tokensAfter_closing q cs⟩

/-- Behind an opening quote comes the content of a literal, or nothing. -/
theorem tokensAfter_opening (q : Quote) (cs : List Char) :
    tokensAfter (some q.opening.kind) cs = [] ∨
      ∃ s b, tokensAfter (some q.opening.kind) cs = ⟨.quoted, s⟩ :: b := by
  rcases tokensAfter_literal q cs with h | ⟨s, h⟩ | ⟨s, rest, -, h⟩
  · exact .inl h
  · exact .inr ⟨s, _, h⟩
  · exact .inr ⟨s, _, h⟩

variable {front : List Token} {last : Option Kind} {c : Char} {cs : List Char} {k : Kind} {m : Nat}

/-- A blank token is read only where a blank stands and no brace and no literal is open. -/
theorem Rule.blank_inv (h : Rule last c cs k m) (hk : k = .blank) :
    isBlank c = true ∧ last ≠ some .openBrace ∧ (∀ q : Quote, last ≠ some q.opening.kind) ∧
      m = (cs.takeWhile isBlank).length := by
  subst hk
  obtain ⟨-, hopen, hplain⟩ := h.plain_inv (by decide)
  cases hplain with
  | mark hmark _ => simp [marks] at hmark
  | blank hbrace hc => exact ⟨hc, hbrace, hopen, rfl⟩

/-- The first token of a text where no blank can be read. -/
theorem head?_tokensAfter_ne_blank
    (h : ∀ c rest, cs = c :: rest → isBlank c = true → last = some .openBrace) :
    ∀ u ∈ (tokensAfter last cs).head?, u.kind ≠ .blank := by
  cases cs with
  | nil => simp [tokensAfter]
  | cons c cs =>
    rw [tokensAfter_eq_added, Step.added]
    split
    · rintro u ⟨⟩
      decide
    · rintro u ⟨⟩ hk
      obtain ⟨hc, hlast, -⟩ := (rule_lexeme last c cs).blank_inv hk
      exact hlast (h c cs rfl hc)

/-- Behind the content of a literal stands its quote, or nothing. -/
theorem head?_drop_content {q : Quote} (hc : c ≠ q.mark) (cs : List Char) :
    ∀ d ∈ (cs.drop (contentLength q.mark (c :: cs) - 1)).head?, d = q.mark := by
  have hdrop : cs.drop (contentLength q.mark (c :: cs) - 1) =
      (c :: cs).drop (contentLength q.mark (c :: cs)) := by
    conv => rhs; rw [← Nat.sub_add_cancel (contentLength_pos hc cs), List.drop_succ_cons]
  intro d hd
  rw [hdrop] at hd
  rcases drop_contentLength q.mark (c :: cs) with hnil | ⟨rest, hrest⟩
  · rw [hnil] at hd
    exact nomatch hd
  · rw [hrest] at hd
    exact (Option.some.inj hd).symm

/-! ## Between two tokens -/

/-- What holds between two tokens: `front` has been read, `last` is the kind of the last token
    that is not blank, and `cs` comes next. -/
structure Ready (front : List Token) (last : Option Kind) (cs : List Char) : Prop where
  /-- Nothing stands behind an opening quote yet. -/
  opening (q : Quote) : last = some q.opening.kind → ∃ f, front = f ++ [q.opening]
  /-- The content of a literal has been read up to its own quote. -/
  quoted : last = some .quoted → ∃ (q : Quote) (f : List Token) (s : String),
    front = f ++ [q.opening, ⟨.quoted, s⟩] ∧ ∀ c ∈ cs.head?, c = q.mark
  /-- Nothing stands behind an opening brace yet. -/
  brace : last = some .openBrace → ∃ f, front = f ++ [.leftBrace]

/-- Behind most kinds the scan relies on nothing. -/
theorem Ready.of_ne (hopen : ∀ q : Quote, last ≠ some q.opening.kind)
    (hquoted : last ≠ some .quoted) (hbrace : last ≠ some .openBrace) (front : List Token)
    (cs : List Char) : Ready front last cs :=
  ⟨fun q h => absurd h (hopen q), fun h => absurd h hquoted, fun h => absurd h hbrace⟩

theorem ready_none (front : List Token) (cs : List Char) : Ready front none cs :=
  ⟨nofun, nofun, nofun⟩

/-- The kinds behind which the scan relies on nothing. -/
def freeKinds : List Kind :=
  [.number, .operator, .openBracket, .closeBracket, .closeBrace, .closeQuote, .closeDoubleQuote,
    .reference, .function, .comma, .unknown]

theorem ready_free (front : List Token) (k : Kind) (cs : List Char) (hk : k ∈ freeKinds) :
    Ready front (some k) cs := by
  refine .of_ne ?_ ?_ ?_ front cs
  · rintro (_ | _) ⟨⟩ <;> simp [freeKinds, Quote.opening] at hk
  · rintro ⟨⟩
    simp [freeKinds] at hk
  · rintro ⟨⟩
    simp [freeKinds] at hk

/-- What a step does for its token `t`: the token has the right neighbours, and the scan is
    ready behind it. -/
structure Places (front : List Token) (last : Option Kind) (t : Token) (cs : List Char) :
    Prop where
  placed : Placed front t (tokensAfter (t.lastKind last) cs)
  ready : Ready (front ++ [t]) (t.lastKind last) cs

/-- The kinds that ask nothing of their neighbours. -/
def looseKinds : List Kind :=
  [.number, .operator, .openBracket, .closeBracket, .closeBrace, .comma, .unknown]

theorem places_loose (front : List Token) (last : Option Kind) (s : String) (cs : List Char)
    (hk : k ∈ looseKinds) : Places front last ⟨k, s⟩ cs := by
  simp only [looseKinds, List.mem_cons, List.not_mem_nil, or_false] at hk
  rcases hk with rfl | rfl | rfl | rfl | rfl | rfl | rfl
  · exact ⟨trivial, ready_free _ .number _ (by decide)⟩
  · exact ⟨trivial, ready_free _ .operator _ (by decide)⟩
  · exact ⟨trivial, ready_free _ .openBracket _ (by decide)⟩
  · exact ⟨trivial, ready_free _ .closeBracket _ (by decide)⟩
  · exact ⟨trivial, ready_free _ .closeBrace _ (by decide)⟩
  · exact ⟨trivial, ready_free _ .comma _ (by decide)⟩
  · exact ⟨trivial, ready_free _ .unknown _ (by decide)⟩

theorem places_opening (front : List Token) (last : Option Kind) (q : Quote) (cs : List Char) :
    Places front last q.opening cs := by
  have hnext := tokensAfter_opening q cs
  cases q with
  | single =>
    refine ⟨hnext, fun p hp => ?_, nofun, nofun⟩
    cases p with
    | single => exact ⟨front, rfl⟩
    | double => exact nomatch hp
  | double =>
    refine ⟨hnext, fun p hp => ?_, nofun, nofun⟩
    cases p with
    | single => exact nomatch hp
    | double => exact ⟨front, rfl⟩

theorem places_quoted (q : Quote) (s : String) (hopened : ∃ f, front = f ++ [q.opening])
    (hmark : ∀ c ∈ cs.head?, c = q.mark) (last : Option Kind) :
    Places front last ⟨.quoted, s⟩ cs := by
  refine ⟨⟨q, hopened, tokensAfter_quoted hmark⟩, fun p hp => ?_, fun _ => ?_, nofun⟩
  · cases p <;> exact nomatch hp
  · obtain ⟨f, rfl⟩ := hopened
    exact ⟨q, f, s, List.append_assoc _ _ _, hmark⟩

theorem places_closing (q : Quote) (hread : ∃ f s, front = f ++ [q.opening, ⟨.quoted, s⟩])
    (last : Option Kind) (cs : List Char) : Places front last q.closing cs := by
  cases q with
  | single => exact ⟨hread, ready_free _ .closeQuote _ (by decide)⟩
  | double => exact ⟨hread, ready_free _ .closeDoubleQuote _ (by decide)⟩

/-! ## Steps -/

/-- A name is the longest text without a brace. -/
theorem name_text (hc : inName c = true) (cs : List Char) (s : String)
    (hs : s = String.ofList (c :: cs.take (cs.takeWhile inName).length)) :
    s ≠ "" ∧ '\x7b' ∉ s.toList ∧ '\x7d' ∉ s.toList := by
  have hall : ∀ d ∈ c :: cs.takeWhile inName, inName d = true := by
    intro d hd
    rcases List.mem_cons.mp hd with rfl | hd
    · exact hc
    · exact List.mem_takeWhile_imp hd
  rw [take_length_takeWhile] at hs
  subst hs
  refine ⟨?_, ?_, ?_⟩
  · intro hempty
    have hnil := congrArg String.toList hempty
    rw [String.toList_ofList] at hnil
    exact nomatch hnil
  · rw [String.toList_ofList]
    exact fun hd => nomatch hall _ hd
  · rw [String.toList_ofList]
    exact fun hd => nomatch hall _ hd

/-- Outside quotes every rule places its token. -/
theorem PlainRule.places (h : PlainRule last c cs k m) (hready : Ready front last (c :: cs))
    (hopen : ∀ q : Quote, last ≠ some q.opening.kind) (hc : ∀ q : Quote, c ≠ q.mark) :
    Places front last ⟨k, String.ofList (c :: cs.take m)⟩ (cs.drop m) := by
  cases h with
  | subtraction _ _ | negative _ _ _ | numeral _ | pair _ _ _ | symbol _ _ _ _
    | unknown _ _ _ _ _ _ =>
    exact places_loose _ _ _ _ (by decide)
  | name hlast hname _ =>
    have hnext := tokensAfter_reference (brace_of_mem_dropWhile cs)
    rw [← drop_length_takeWhile] at hnext
    exact ⟨⟨name_text hname cs _ rfl, hready.brace hlast, hnext⟩,
      ready_free _ .reference _ (by decide)⟩
  | call _ _ hnext =>
    obtain ⟨rest, -, hrest⟩ := tokensAfter_function hnext
    rw [drop_length_takeWhile]
    exact ⟨⟨_, hrest⟩, ready_free _ .function _ (by decide)⟩
  | mark hmark _ =>
    simp only [marks, List.mem_cons, Prod.mk.injEq, List.not_mem_nil, or_false] at hmark
    rcases hmark with ⟨-, rfl⟩ | ⟨-, rfl⟩ | ⟨rfl, rfl⟩ | ⟨-, rfl⟩ | ⟨-, rfl⟩
    · exact places_loose _ _ _ _ (by decide)
    · exact places_loose _ _ _ _ (by decide)
    · refine ⟨head?_tokensAfter_ne_blank fun _ _ _ _ => rfl, fun q hq => ?_, fun hq => ?_,
        fun _ => ?_⟩
      · exact absurd hq (ne_opening_of_not_mem (k := .openBrace) (by decide) q)
      · have hne : Kind.openBrace ≠ .quoted := by decide
        exact absurd (Option.some.inj hq) hne
      · exact ⟨front, rfl⟩
    · exact places_loose _ _ _ _ (by decide)
    · exact places_loose _ _ _ _ (by decide)
  | blank hbrace hblank =>
    -- Behind the content of a literal stands its quote, which is no blank.
    have hquoted : last ≠ some .quoted := by
      intro hlast
      obtain ⟨q, -, -, -, hmark⟩ := hready.quoted hlast
      exact hc q (hmark c rfl)
    rw [drop_length_takeWhile]
    refine ⟨head?_tokensAfter_ne_blank fun d rest hd hdb => ?_, .of_ne hopen hquoted hbrace _ _⟩
    have hstop := List.head?_dropWhile_not isBlank cs
    rw [hd] at hstop
    exact absurd (hstop.symm.trans hdb) Bool.false_ne_true

/-- **Placement.** Wherever the scan is ready, every token of the rest has the right neighbours. -/
theorem allPlaced_tokensAfter (hready : Ready front last cs) :
    AllPlaced front (tokensAfter last cs) := by
  generalize hlen : cs.length = l
  induction l using Nat.strongRecOn generalizing front last cs with
  | ind l ih =>
    -- A step that places its token leaves a shorter text behind it.
    have hstep {front : List Token} {last : Option Kind} {t : Token} {rest : List Char}
        (h : Places front last t rest) (hrest : rest.length < l) :
        AllPlaced front (t :: tokensAfter (t.lastKind last) rest) :=
      .cons h.placed (ih _ hrest h.ready rfl)
    cases cs with
    | nil =>
      rw [tokensAfter]
      exact .nil front
    | cons c cs =>
      rw [List.length_cons] at hlen
      have hdrop (m : Nat) : (cs.drop m).length < l := by
        rw [List.length_drop]
        omega
      generalize hlex : lexeme last c cs = r
      obtain ⟨k, m⟩ := r
      cases rule_iff.mpr hlex with
      | opening q hc hlast =>
        subst hc
        have hnext := hstep (places_opening front last q cs) (hdrop 0)
        rwa [tokensAfter_mark hlast q cs, ← q.lastKind_opening last]
      | closing q hc hlast =>
        subst hc
        rcases hlast with rfl | rfl
        · -- The content has been read up to its own quote, so this is the flavour that opened it.
          obtain ⟨p, f, s, rfl, hmark⟩ := hready.quoted rfl
          obtain rfl := Quote.mark_inj (hmark _ rfl)
          have hnext := hstep (places_closing q ⟨f, s, rfl⟩ (some .quoted) cs) (hdrop 0)
          rwa [tokensAfter_closing, ← q.lastKind_closing (some .quoted)]
        · -- An empty literal, whose content is added together with its closing quote.
          obtain ⟨f, rfl⟩ := hready.opening q rfl
          have hmark : ∀ c ∈ (q.mark :: cs).head?, c = q.mark := by simp
          have hcontent := places_quoted q "" ⟨f, rfl⟩ hmark none
          have hread : (f ++ [q.opening]) ++ [⟨.quoted, ""⟩] = f ++ [q.opening, ⟨.quoted, ""⟩] :=
            List.append_assoc _ _ _
          have hnext := hstep (places_closing q ⟨f, "", hread⟩ (some .quoted) cs) (hdrop 0)
          rw [tokensAfter_empty, ← tokensAfter_closing]
          refine .cons hcontent.placed ?_
          rwa [tokensAfter_closing, ← q.lastKind_closing (some .quoted)]
      | content q hc hlast =>
        obtain ⟨f, rfl⟩ := hready.opening q hlast
        subst hlast
        have hclosed : closesEmpty (some q.opening.kind) .quoted = false := by cases q <;> rfl
        rw [tokensAfter_cons hlex hclosed]
        exact hstep (places_quoted q _ ⟨f, rfl⟩ (head?_drop_content hc cs) _) (hdrop _)
      | plain hc hopen hplain =>
        have hclosed : closesEmpty last k = false := by
          have hs : last ≠ some .openQuote := hopen .single
          have hd : last ≠ some .openDoubleQuote := hopen .double
          simp [closesEmpty, hs, hd]
        rw [tokensAfter_cons hlex hclosed]
        exact hstep (hplain.places hready hopen hc) (hdrop m)

/-- **Neighbours.** In the scan of a text the content of a literal stands directly behind a quote,
    and directly behind it stands the closing quote of the same flavour, or nothing; every
    closing quote stands directly behind such a content, and behind every opening quote stands
    a content, or nothing. A reference name is not empty, has no brace in it and stands directly
    behind an opening brace; behind it stands a brace, or nothing. Behind a function name stands
    an opening bracket, with at most one blank token between them, and never do two blank tokens
    stand next to each other. -/
theorem tokenize_placed (formula : String) (front back : List Token) (t : Token)
    (h : tokenize formula = front ++ t :: back) : Placed front t back := by
  exact allPlaced_tokensAfter (ready_none [] formula.toList) front t back h

/-- A literal with both quotes in it. -/
theorem tokenize_placed_escaped :
    tokenize "max ('\\'\"')" =
      [⟨.function, "max"⟩, ⟨.blank, " "⟩, .leftBracket, Quote.single.opening] ++
        ⟨.quoted, "\\'\""⟩ :: [Quote.single.closing, .rightBracket] ∧
    Placed [⟨.function, "max"⟩, ⟨.blank, " "⟩, .leftBracket, Quote.single.opening]
      ⟨.quoted, "\\'\""⟩ [Quote.single.closing, .rightBracket] := by
  have htokens : tokenize "max ('\\'\"')" =
      [⟨.function, "max"⟩, ⟨.blank, " "⟩, .leftBracket, Quote.single.opening] ++
        ⟨.quoted, "\\'\""⟩ :: [Quote.single.closing, .rightBracket] := by
    decide +kernel
  exact ⟨htokens, tokenize_placed _ _ _ _ htokens⟩

end Scan

end Formulary
