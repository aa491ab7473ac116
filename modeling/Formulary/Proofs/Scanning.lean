/-
  Formulary.Proofs.Scanning

  The scan as a machine that goes over a text step by step.

  A step takes as many characters as the rule for its token matches (`matched`), and a `Run`
  is a sequence of steps up to the end of the text. `matches_lexeme` says that no rule ever
  matches nothing where it applies, so every step leaves a shorter text, and the tokens of
  a text are those of a run (`run_tokensAfter`).

  A token without text stands between two quotes (`Run.allEmptyBetween`): a step that adds one
  closes a literal, and where a literal is open no blank is read, so the token before is the
  one that has opened it.
-/

import Formulary.Proofs.Lexing

namespace Formulary

open Text (isBlank isDigit isLetter)

namespace Scan

/-! ## Steps -/

/-- The number of characters that the rule for a kind matches at the start of a text. -/
def matched (last : Option Kind) (cs : List Char) : Kind → Nat
  | .number =>
    if cs.head? = some '-' ∧ 0 < numeralLength cs.tail then numeralLength cs.tail + 1
    else numeralLength cs
  | .quoted => contentLength (if last = some .openDoubleQuote then '"' else '\'') cs
  | .reference => (cs.takeWhile fun d => d ≠ '\x7b' && d ≠ '\x7d').length
  | .operator =>
    if (cs.head? = some '<' ∨ cs.head? = some '=' ∨ cs.head? = some '>') ∧
      cs.tail.head? = some '=' then 2 else 1
  | .function => (cs.takeWhile fun d => isLetter d || isDigit d).length
  | .blank => (cs.takeWhile isBlank).length
  | _ => 1

/-- The scan takes a token from the start of a text and leaves the rest. -/
structure Step (last : Option Kind) (c : Char) (cs : List Char) (t : Token) (rest : List Char) :
    Prop where
  kind : t.kind = (lexeme last c cs).1
  text : t.text = String.ofList ((c :: cs).take (matched last (c :: cs) t.kind))
  rest : rest = (c :: cs).drop (matched last (c :: cs) t.kind)

/-- The tokens that a step adds: its own, behind an empty literal if it closes one. -/
def Step.added (last : Option Kind) (t : Token) : List Token :=
  if closesEmpty last t.kind then [⟨.quoted, ""⟩, t] else [t]

/-- Steps from a text to its end, with their tokens and their number. -/
inductive Run : Option Kind → List Char → List Token → Nat → Prop where
  | done {last : Option Kind} : Run last [] [] 0
  | step {last : Option Kind} {c : Char} {cs rest : List Char} {t : Token} {ts : List Token}
    {n : Nat} : Step last c cs t rest → Run (t.lastKind last) rest ts n →
      Run last (c :: cs) (Step.added last t ++ ts) (n + 1)

/-! ## Rules match something -/

/-- The length beyond the first character is that of what the rule matches. -/
def Matches (last : Option Kind) (c : Char) (cs : List Char) (r : Kind × Nat) : Prop :=
  r.2 + 1 = matched last (c :: cs) r.1

theorem matches_run {p : Char → Bool} {c : Char} {cs : List Char} (h : p c = true) :
    (cs.takeWhile p).length + 1 = ((c :: cs).takeWhile p).length := by
  rw [List.takeWhile_cons_of_pos h, List.length_cons]

theorem PlainRule.matched_eq {last : Option Kind} {c : Char} {cs : List Char} {k : Kind} {m : Nat}
    (h : PlainRule last c cs k m) : m + 1 = matched last (c :: cs) k := by
  cases h with
  | subtraction hc _ =>
    subst hc
    simp [matched]
  | negative hc hpos _ =>
    subst hc
    simp [matched, hpos]
  | numeral hpos =>
    have hc : c ≠ '-' :=
      ne_of_mem_symbols (not_mem_symbols_of_numeralLength_pos hpos) (by decide)
    have hmatched : matched last (c :: cs) .number = numeralLength (c :: cs) :=
      if_neg fun h => hc (Option.some.inj h.1)
    rw [hmatched]
    omega
  | name _ hc _ => exact matches_run hc
  | pair _ hc hcs =>
    simp only [comparisons, List.mem_cons, List.not_mem_nil, or_false] at hc
    simp [matched, hc, hcs]
  | symbol _ _ _ hpair =>
    simp only [comparisons, List.mem_cons, List.not_mem_nil, or_false] at hpair
    have hone : matched last (c :: cs) .operator = 1 := by
      simpa [matched] using hpair
    exact hone.symm
  | call _ hc _ => exact matches_run (by simp [inWord, hc])
  | mark hk _ =>
    simp only [marks, List.mem_cons, Prod.mk.injEq, List.not_mem_nil, or_false] at hk
    rcases hk with ⟨-, rfl⟩ | ⟨-, rfl⟩ | ⟨-, rfl⟩ | ⟨-, rfl⟩ | ⟨-, rfl⟩ <;> rfl
  | blank _ hc => exact matches_run hc
  | unknown _ _ _ _ _ _ => rfl

/-- No rule matches nothing where it applies. -/
theorem matches_lexeme (last : Option Kind) (c : Char) (cs : List Char) :
    Matches last c cs (lexeme last c cs) := by
  have hrule := rule_lexeme last c cs
  rw [Matches]
  generalize lexeme last c cs = r at hrule
  obtain ⟨k, m⟩ := r
  cases hrule with
  | opening q _ _ | closing q _ _ => cases q <;> rfl
  | content q hc hlast =>
    subst hlast
    have hpos := contentLength_pos hc cs
    have hmatched : matched (some q.opening.kind) (c :: cs) .quoted =
        contentLength q.mark (c :: cs) := by cases q <;> rfl
    rw [hmatched]
    exact Nat.sub_add_cancel hpos
  | plain _ _ hplain => exact hplain.matched_eq

theorem numeralLength_le (cs : List Char) : numeralLength cs ≤ cs.length := by
  have hwhole := (List.takeWhile_sublist (l := cs) isDigit).length_le
  rw [numeralLength]
  split
  · next rest hdrop =>
    have hplaces := (List.takeWhile_sublist (l := rest) isDigit).length_le
    have hlen := congrArg List.length hdrop
    rw [List.length_drop, List.length_cons] at hlen
    extract_lets places
    split <;> omega
  · exact hwhole

theorem contentLength_le (quote : Char) (cs : List Char) : contentLength quote cs ≤ cs.length := by
  fun_induction contentLength quote cs with
  | case1 => exact Nat.le_refl 0
  | case2 => exact Nat.zero_le _
  | case3 => exact Nat.le_refl 1
  | case4 => exact Nat.zero_le _
  | case5 d cs _ ih => exact Nat.add_le_add_right ih 2
  | case6 c d cs _ _ ih => exact Nat.succ_le_succ ih

/-- No rule matches more than there is. -/
theorem matched_le (last : Option Kind) (c : Char) (cs : List Char) (k : Kind) :
    matched last (c :: cs) k ≤ (c :: cs).length := by
  have hone : 1 ≤ (c :: cs).length := Nat.le_add_left 1 cs.length
  cases k with
  | number =>
    rw [matched]
    split
    · exact Nat.succ_le_succ (numeralLength_le cs)
    · exact numeralLength_le _
  | quoted => exact contentLength_le _ _
  | reference | function | blank => exact (List.takeWhile_sublist _).length_le
  | operator =>
    rw [matched]
    split
    · next h =>
      obtain ⟨rest, rfl⟩ := List.head?_eq_some_iff.mp h.2
      simp
    · exact hone
  | _ => exact hone

namespace Step

variable {last : Option Kind} {c : Char} {cs rest : List Char} {t : Token}

/-- A step covers what is in front of the rest. -/
theorem covers (h : Step last c cs t rest) : t.text.toList ++ rest = c :: cs := by
  rw [h.text, h.rest, String.toList_ofList, List.take_append_drop]

/-- Every step takes characters, as many as its rule matches. -/
theorem length_text (h : Step last c cs t rest) :
    0 < t.text.length ∧ t.text.length = matched last (c :: cs) t.kind := by
  have hlen : t.text.length = matched last (c :: cs) t.kind := by
    rw [h.text, String.length_ofList, List.length_take]
    exact Nat.min_eq_left (matched_le last c cs t.kind)
  refine ⟨?_, hlen⟩
  have hmatches := matches_lexeme last c cs
  rw [hlen, h.kind, ← hmatches]
  exact Nat.succ_pos _

theorem length_rest_le (h : Step last c cs t rest) : rest.length ≤ cs.length := by
  have hpos := h.length_text.1
  have hlen := congrArg List.length h.covers
  rw [List.length_append, String.length_toList, List.length_cons] at hlen
  omega

end Step

/-- The token at the start of a text. -/
def firstToken (last : Option Kind) (c : Char) (cs : List Char) : Token :=
  ⟨(lexeme last c cs).1, String.ofList (c :: cs.take (lexeme last c cs).2)⟩

theorem step_firstToken (last : Option Kind) (c : Char) (cs : List Char) :
    Step last c cs (firstToken last c cs) (cs.drop (lexeme last c cs).2) := by
  have hmatches := matches_lexeme last c cs
  refine ⟨rfl, ?_, ?_⟩
  · rw [firstToken, ← hmatches, List.take_succ_cons]
  · rw [firstToken, ← hmatches, List.drop_succ_cons]

theorem tokensAfter_eq_added (last : Option Kind) (c : Char) (cs : List Char) :
    tokensAfter last (c :: cs) = Step.added last (firstToken last c cs) ++
      tokensAfter ((firstToken last c cs).lastKind last) (cs.drop (lexeme last c cs).2) := by
  rw [tokensAfter, Step.added, firstToken]
  by_cases hcloses : closesEmpty last (lexeme last c cs).1 = true
  · rw [if_pos hcloses]
    exact if_pos hcloses
  · rw [if_neg hcloses]
    exact if_neg hcloses

/-- What holds at the end of a text, and at each place where it holds behind the next token, holds
    of every scan. -/
theorem scanInduction {motive : Option Kind → List Char → Prop} (nil : ∀ last, motive last [])
    (cons : ∀ last c cs,
      motive ((firstToken last c cs).lastKind last) (cs.drop (lexeme last c cs).2) →
        motive last (c :: cs)) :
    ∀ last cs, motive last cs
  | last, [] => nil last
  | last, c :: cs => cons last c cs (scanInduction nil cons _ _)
termination_by _ cs => cs.length
decreasing_by rw [List.length_drop, List.length_cons]; omega

/-- Every token of a scan stands at the start of some text, but for the content of an empty
    literal. -/
theorem exists_firstToken_of_mem {last : Option Kind} {cs : List Char} {t : Token}
    (h : t ∈ tokensAfter last cs) (ht : t ≠ ⟨.quoted, ""⟩) :
    ∃ last' c rest, t = firstToken last' c rest := by
  induction last, cs using scanInduction with
  | nil last =>
    rw [tokensAfter] at h
    exact absurd h List.not_mem_nil
  | cons last c cs ih =>
    rw [tokensAfter_eq_added] at h
    rcases List.mem_append.mp h with hadded | hrest
    · -- A step adds what its rule reads, and in front of it at most an empty content.
      refine ⟨last, c, cs, ?_⟩
      rw [Step.added] at hadded
      split at hadded
      · rcases List.mem_cons.mp hadded with hempty | hfirst
        · exact absurd hempty ht
        · exact List.mem_singleton.mp hfirst
      · exact List.mem_singleton.mp hadded
    · exact ih hrest

/-! ## Runs -/

/-- **Progress.** The tokens of a text are those of a run, of no more steps than the text has
    characters. -/
theorem run_tokensAfter (last : Option Kind) (cs : List Char) :
    ∃ n ≤ cs.length, Run last cs (tokensAfter last cs) n := by
  induction last, cs using scanInduction with
  | nil last =>
    rw [tokensAfter]
    exact ⟨0, Nat.zero_le _, .done⟩
  | cons last c cs ih =>
    obtain ⟨n, hn, hrun⟩ := ih
    have hstep := step_firstToken last c cs
    have hle := hstep.length_rest_le
    refine ⟨n + 1, ?_, ?_⟩
    · rw [List.length_cons]
      omega
    · rw [tokensAfter_eq_added]
      exact .step hstep hrun

/-! ## Tokens without text -/

/-- The token behind one of kind `before` and in front of `after` has a text, or it is a literal
    between two quotes. -/
def EmptyBetween (before : Option Kind) (t : Token) (after : List Token) : Prop :=
  t.text = "" → t.kind = .quoted ∧ ∃ q : Quote, before = some q.opening.kind ∧
    after.head?.map Token.kind = some q.closing.kind

/-- All tokens of a list behind one of kind `before` are such. -/
def AllEmptyBetween (before : Option Kind) : List Token → Prop
  | [] => True
  | t :: ts => EmptyBetween before t ts ∧ AllEmptyBetween (some t.kind) ts

theorem AllEmptyBetween.of_append {before : Option Kind} {front back : List Token} {t : Token}
    (h : AllEmptyBetween before (front ++ t :: back)) :
    EmptyBetween ((front.getLast?.map Token.kind).or before) t back := by
  induction front generalizing before with
  | nil => exact h.1
  | cons u front ih =>
    have hrest := ih h.2
    cases front with
    | nil => exact hrest
    | cons v front =>
      rw [List.getLast?_cons_cons]
      rw [List.getLast?_cons] at hrest ⊢
      exact hrest

/-- A literal that is open at some point of a scan has been opened by the token before. -/
def OpenedBefore (last before : Option Kind) : Prop :=
  ∀ q : Quote, last = some q.opening.kind → before = some q.opening.kind

/-- No blank is read where a literal is open. -/
theorem lexeme_ne_blank (q : Quote) (c : Char) (cs : List Char) :
    (lexeme (some q.opening.kind) c cs).1 ≠ .blank := by
  cases q <;> simp [lexeme, Quote.opening] <;> split <;> simp

theorem Step.openedBefore {last : Option Kind} {c : Char} {cs rest : List Char} {t : Token}
    (h : Step last c cs t rest) : OpenedBefore (t.lastKind last) (some t.kind) := by
  intro q hq
  rw [Token.lastKind] at hq
  split at hq
  · next hblank =>
    subst hq
    exact absurd (h.kind.symm.trans (of_decide_eq_true hblank)) (lexeme_ne_blank q c cs)
  · exact hq

/-- A quote that closes an empty literal is of the flavour that has opened it. -/
theorem exists_quote_of_closesEmpty {last : Option Kind} {k : Kind}
    (h : closesEmpty last k = true) :
    ∃ q : Quote, last = some q.opening.kind ∧ k = q.closing.kind := by
  simp only [closesEmpty, Bool.or_eq_true, Bool.and_eq_true, decide_eq_true_eq] at h
  rcases h with ⟨hlast, hk⟩ | ⟨hlast, hk⟩
  · exact ⟨.single, hlast, hk⟩
  · exact ⟨.double, hlast, hk⟩

theorem Run.allEmptyBetween {last before : Option Kind} {cs : List Char} {ts : List Token} {n : Nat}
    (h : Run last cs ts n) (hopened : OpenedBefore last before) : AllEmptyBetween before ts := by
  induction h generalizing before with
  | done => trivial
  | @step last c cs rest t ts n hstep _ ih =>
    have hrest := ih hstep.openedBefore
    have htext (k : Option Kind) : EmptyBetween k t ts :=
      fun hempty => absurd hstep.length_text.1 (by simp [hempty])
    rw [Step.added]
    split
    · next hcloses =>
      obtain ⟨q, hlast, hk⟩ := exists_quote_of_closesEmpty hcloses
      exact ⟨fun _ => ⟨rfl, q, hopened q hlast, congrArg some hk⟩, htext _, hrest⟩
    · exact ⟨htext _, hrest⟩

/-- **Scanning.** The scan of a text ends, after at most as many steps as it has characters. Every
    step, in whatever state, takes as many characters as its rule matches, and at least one.
    The tokens cover the text, and one without a text of its own is a literal between an opening
    quote and the closing quote of the same flavour. -/
theorem tokenize_lossless (formula : String) :
    (∃ n ≤ formula.length, Run none formula.toList (tokenize formula) n) ∧
    (∀ last c cs t rest, Step last c cs t rest → 0 < t.text.length ∧
      t.text.length = matched last (c :: cs) t.kind ∧ t.text.toList ++ rest = c :: cs) ∧
    Token.joined (tokenize formula) = formula ∧
    ∀ before t after, tokenize formula = before ++ t :: after → t.text = "" →
      t.kind = .quoted ∧ ∃ q : Quote, before.getLast?.map Token.kind = some q.opening.kind ∧
        after.head?.map Token.kind = some q.closing.kind := by
  obtain ⟨n, hn, hrun⟩ := run_tokensAfter none formula.toList
  refine ⟨⟨n, hn, hrun⟩, fun last c cs t rest h => ?_, ?_, fun before t after heq => ?_⟩
  · obtain ⟨hpos, hlen⟩ := h.length_text
    exact ⟨hpos, hlen, h.covers⟩
  · exact joined_tokenize formula
  · have hall : AllEmptyBetween none (tokenize formula) := hrun.allEmptyBetween nofun
    rw [heq] at hall
    have hempty := hall.of_append
    rwa [Option.or_none] at hempty

/-- Two quotes with nothing between them. -/
theorem tokenize_lossless_quotes :
    tokenize "''" = [Quote.single.opening, ⟨.quoted, ""⟩, Quote.single.closing] ∧
      (∃ q : Quote, [Quote.single.opening].getLast?.map Token.kind = some q.opening.kind ∧
        [Quote.single.closing].head?.map Token.kind = some q.closing.kind) ∧
      0 < Quote.single.opening.text.length ∧
      Quote.single.opening.text.toList ++ ['\''] = ['\'', '\''] := by
  have htokens : tokenize "''" =
      [Quote.single.opening, ⟨.quoted, ""⟩, Quote.single.closing] := by
    decide +kernel
  have hstep : Step none '\'' ['\''] Quote.single.opening ['\''] :=
    step_firstToken none '\'' ['\'']
  obtain ⟨-, hsteps, -, hempty⟩ := tokenize_lossless "''"
  obtain ⟨hpos, -, hcovers⟩ := hsteps _ _ _ _ _ hstep
  exact ⟨htokens, (hempty [Quote.single.opening] ⟨.quoted, ""⟩ [Quote.single.closing] htokens rfl).2,
    hpos, hcovers⟩

end Scan

end Formulary
