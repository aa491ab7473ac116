/-
  Formulary.Proofs.Splicing

  What a scan reads of the first part of a text when something else is put behind that part.

  `Passed v last u ts last'` says that the scan of `u ++ v` goes over `u` in whole tokens
  `ts` and comes to `v` with `last'`. The text `v` is there because rules look ahead: a name is
  a function only if a bracket follows, and a numeral, a name or a symbol ends where the
  next character does not go on with it. A text `v'` that is `Detached` from `u` and has a
  bracket next where `v` has one can stand for `v`: it leaves every rule as it was
  (`Rule.splice`), and so all tokens of `u` (`Passed.splice`).

  Blanks in front of `v` make such a text, which gives `significant_tokenize_insert`: blanks
  between two tokens of a formula leave its other tokens as they are.
-/

import Formulary.Proofs.Placement

namespace Formulary

open Text (isBlank isDigit isLetter)
open Token (significant)

theorem Token.significant_append (ts us : List Token) :
    significant (ts ++ us) = significant ts ++ significant us :=
  List.filter_append ts us

/-! ## Parts of a text -/

section Parts

variable {p : Char → Bool} {x v v' : List Char}

/-- The first character does not go on with a run. -/
def Stops (p : Char → Bool) (v : List Char) : Prop := ∀ d ∈ v.head?, p d = false

/-- A run that is no longer than the first part ends in it. -/
theorem takeWhile_append_of_le (h : ((x ++ v).takeWhile p).length ≤ x.length) :
    (x ++ v).takeWhile p = x.takeWhile p := by
  rw [List.takeWhile_append] at h ⊢
  split at h
  · next hall =>
    have hnil : v.takeWhile p = [] := by
      rw [List.length_append] at h
      exact List.eq_nil_of_length_eq_zero (by omega)
    rw [if_pos hall, hnil, List.append_nil]
    exact ((List.takeWhile_sublist p).eq_of_length hall).symm
  · next hall => rw [if_neg hall]

theorem takeWhile_append_of_stops (h : Stops p v) : (x ++ v).takeWhile p = x.takeWhile p := by
  have hnil : v.takeWhile p = [] := by
    cases v with
    | nil => rfl
    | cons d v => exact List.takeWhile_cons_of_neg (Bool.eq_false_iff.mp (h d rfl))
  apply takeWhile_append_of_le
  rw [List.takeWhile_append, hnil, List.append_nil]
  split
  · exact Nat.le_refl _
  · exact (List.takeWhile_sublist p).length_le

/-- What is left behind a run that ends in the first part. -/
theorem dropWhile_append_of_takeWhile (h : (x ++ v).takeWhile p = x.takeWhile p) :
    (x ++ v).dropWhile p = x.dropWhile p ++ v := by
  have hsplit : x.takeWhile p ++ (x.dropWhile p ++ v) = x ++ v := by
    rw [← List.append_assoc, List.takeWhile_append_dropWhile]
  have hwhole : (x ++ v).takeWhile p ++ (x ++ v).dropWhile p = x ++ v :=
    List.takeWhile_append_dropWhile
  rw [h] at hwhole
  exact List.append_cancel_left (hwhole.trans hsplit.symm)

/-- A run that ends where the first part does. -/
theorem takeWhile_append_of_forall (hx : ∀ d ∈ x, p d = true) (hv : Stops p v) :
    (x ++ v).takeWhile p = x := by
  rw [takeWhile_append_of_stops hv, List.takeWhile_eq_self_iff.mpr hx]

theorem dropWhile_append_of_forall (hx : ∀ d ∈ x, p d = true) (hv : Stops p v) :
    (x ++ v).dropWhile p = v := by
  rw [dropWhile_append_of_takeWhile (takeWhile_append_of_stops hv),
    List.dropWhile_eq_nil_iff.mpr hx, List.nil_append]

/-- The length of the places of a numeral, with their point. -/
def pointLength : List Char → Nat
  | '.' :: rest =>
    if (rest.takeWhile isDigit).length = 0 then 0 else 1 + (rest.takeWhile isDigit).length
  | _ => 0

theorem pointLength_of_ne (h : ∀ d ∈ v.head?, d ≠ '.') : pointLength v = 0 := by
  unfold pointLength
  split
  · exact absurd rfl (h _ rfl)
  · rfl

theorem numeralLength_eq (cs : List Char) :
    numeralLength cs = (cs.takeWhile isDigit).length + pointLength (cs.dropWhile isDigit) := by
  rw [numeralLength, drop_length_takeWhile]
  generalize cs.dropWhile isDigit = rest
  split
  · next rest =>
    rw [pointLength]
    by_cases h : (rest.takeWhile isDigit).length = 0
    · rw [if_pos h, if_pos h, Nat.add_zero]
    · rw [if_neg h, if_neg h, Nat.add_assoc]
  · next hpoint =>
    have hzero : pointLength rest = 0 := pointLength_of_ne (by
      rintro d hd rfl
      obtain ⟨places, rfl⟩ := List.head?_eq_some_iff.mp hd
      exact hpoint places rfl)
    rw [hzero, Nat.add_zero]

theorem pointLength_append (h : pointLength (x ++ v) ≤ x.length) (hdigit : Stops isDigit v')
    (hpoint : ∀ d ∈ v'.head?, d ≠ '.') : pointLength (x ++ v') = pointLength (x ++ v) := by
  cases x with
  | nil => exact (pointLength_of_ne hpoint).trans (Nat.le_zero.mp h).symm
  | cons c x =>
    by_cases hc : c = '.'
    · subst hc
      have hle : ((x ++ v).takeWhile isDigit).length ≤ x.length := by
        rw [List.cons_append, pointLength, List.length_cons] at h
        split at h <;> omega
      rw [List.cons_append, List.cons_append, pointLength, pointLength, takeWhile_append_of_le hle,
        takeWhile_append_of_stops hdigit]
    · rw [pointLength_of_ne (by simpa using hc), pointLength_of_ne (by simpa using hc)]

/-- A numeral that is no longer than the first part ends in it. -/
theorem numeralLength_append (h : numeralLength (x ++ v) ≤ x.length) (hdigit : Stops isDigit v')
    (hpoint : ∀ d ∈ v'.head?, d ≠ '.') : numeralLength (x ++ v') = numeralLength (x ++ v) := by
  rw [numeralLength_eq] at h
  have hrun := takeWhile_append_of_le (Nat.le_trans (Nat.le_add_right _ _) h)
  have hrun' : (x ++ v').takeWhile isDigit = x.takeWhile isDigit := takeWhile_append_of_stops hdigit
  have hlen : (x.takeWhile isDigit).length + (x.dropWhile isDigit).length = x.length := by
    rw [← List.length_append, List.takeWhile_append_dropWhile]
  rw [hrun, dropWhile_append_of_takeWhile hrun] at h
  have hplaces : pointLength (x.dropWhile isDigit ++ v) ≤ (x.dropWhile isDigit).length := by omega
  rw [numeralLength_eq, numeralLength_eq, hrun, hrun', dropWhile_append_of_takeWhile hrun,
    dropWhile_append_of_takeWhile hrun', pointLength_append hplaces hdigit hpoint]

theorem contentLength_mark (quote : Char) (cs : List Char) :
    contentLength quote (quote :: cs) = 0 := by
  cases cs <;> simp [contentLength]

/-- The content of a literal that ends in the first part. -/
theorem contentLength_append {quote : Char} (h : contentLength quote (x ++ v) < x.length)
    (v' : List Char) : contentLength quote (x ++ v') = contentLength quote (x ++ v) := by
  fun_induction contentLength quote x with
  | case1 => exact absurd h (Nat.not_lt_zero _)
  | case2 | case4 => exact (contentLength_mark _ _).trans (contentLength_mark _ _).symm
  | case3 c hc =>
    have hpos := contentLength_pos hc v
    rw [List.singleton_append, List.length_singleton] at h
    omega
  | case5 d cs hc ih =>
    have heq (v : List Char) : contentLength quote ('\\' :: d :: cs ++ v) =
        contentLength quote (cs ++ v) + 2 := by simp [contentLength, hc]
    rw [heq, List.length_cons, List.length_cons] at h
    rw [heq, heq, ih (by omega)]
  | case6 c d cs hc hescape ih =>
    have heq (v : List Char) : contentLength quote (c :: d :: cs ++ v) =
        contentLength quote (d :: cs ++ v) + 1 := by simp [contentLength, hc, hescape]
    rw [heq, List.length_cons] at h
    rw [heq, heq, ih (by omega)]

/-- The look-ahead for a bracket passes over blanks. -/
theorem bracketNext_eq (cs : List Char) :
    bracketNext cs = ((cs.dropWhile isBlank).head? == some '(') := by
  unfold bracketNext
  split
  · next h => rw [h]; rfl
  · next h =>
    symm
    rw [beq_eq_false_iff_ne]
    intro hhead
    obtain ⟨rest, hrest⟩ := List.head?_eq_some_iff.mp hhead
    exact h rest hrest

theorem bracketNext_append (x : List Char) (h : bracketNext v' = bracketNext v) :
    bracketNext (x ++ v') = bracketNext (x ++ v) := by
  rw [bracketNext_eq, bracketNext_eq] at h
  rw [bracketNext_eq, bracketNext_eq, List.dropWhile_append, List.dropWhile_append]
  cases x.dropWhile isBlank with
  | nil => exact h
  | cons d rest => rfl

end Parts

/-! ## Texts behind a text -/

/-- `v'` starts with nothing that goes on a numeral or a word, and a bracket comes next in it
    exactly if one does in `v`. -/
structure Detached (v v' : List Char) : Prop where
  word : Stops Scan.inWord v'
  point : ∀ d ∈ v'.head?, d ≠ '.'
  bracket : bracketNext v' = bracketNext v

theorem Detached.numeralLength_append {v v' x : List Char} (h : Detached v v')
    (hx : numeralLength (x ++ v) ≤ x.length) :
    numeralLength (x ++ v') = numeralLength (x ++ v) := by
  have hdigit : Stops isDigit v' := by
    intro d hd
    have hword := h.word d hd
    rw [Scan.inWord, Bool.or_eq_false_iff] at hword
    exact hword.2
  exact Formulary.numeralLength_append hx hdigit h.point

theorem Detached.of_cons {v rest : List Char} {d : Char} (hword : Scan.inWord d = false)
    (hpoint : d ≠ '.') (h : bracketNext (d :: rest) = bracketNext v) : Detached v (d :: rest) where
  word := by
    rintro _ ⟨⟩
    exact hword
  point := by
    rintro _ ⟨⟩
    exact hpoint
  bracket := h

/-- A text that starts with a blank. -/
theorem Detached.of_isBlank {v rest : List Char} {d : Char} (hd : isBlank d = true)
    (h : bracketNext (d :: rest) = bracketNext v) : Detached v (d :: rest) :=
  .of_cons (Scan.inWord_of_isBlank hd) (Text.ne_of_isBlank hd rfl) h

/-- `v'` starts with a blank and is the same as `v` behind the blanks at their starts. -/
structure Blanked (v v' : List Char) : Prop where
  starts : ∃ d rest, v' = d :: rest ∧ isBlank d = true
  same : v'.dropWhile isBlank = v.dropWhile isBlank

namespace Blanked

variable {v v' : List Char}

/-- Blanks put behind the blanks at the start of a text, if there are any. -/
theorem insert {x w : List Char} (hx : ∀ d ∈ x, isBlank d = true) (hw : ∀ d ∈ w, isBlank d = true)
    (hne : w ≠ []) (v : List Char) : Blanked (x ++ v) (x ++ w ++ v) := by
  have hall : ∀ d ∈ x ++ w, isBlank d = true := by
    intro d hd
    rcases List.mem_append.mp hd with hd | hd
    · exact hx d hd
    · exact hw d hd
  refine ⟨?_, ?_⟩
  · obtain ⟨d, rest, hrest⟩ := List.exists_cons_of_ne_nil (List.append_ne_nil_of_right_ne_nil x hne)
    exact ⟨d, rest ++ v, by rw [hrest, List.cons_append], hall d (by rw [hrest]; simp)⟩
  · rw [List.dropWhile_append_of_pos hall, List.dropWhile_append_of_pos hx]

theorem detached (h : Blanked v v') : Detached v v' := by
  have hbracket : bracketNext v' = bracketNext v := by rw [bracketNext_eq, bracketNext_eq, h.same]
  obtain ⟨d, rest, rfl, hd⟩ := h.starts
  exact .of_isBlank hd hbracket

theorem head?_ne (h : Blanked v v') {c : Char} (hc : isBlank c = false) : v'.head? ≠ some c := by
  obtain ⟨d, rest, rfl, hd⟩ := h.starts
  rintro ⟨⟩
  exact Bool.false_ne_true (hc.symm.trans hd)

end Blanked

namespace Scan

/-! ## Rules -/

variable {last : Option Kind} {c : Char} {x v v' : List Char} {k : Kind} {m : Nat}

/-- Kinds of tokens that a blank may go on. -/
def growing : List Kind := [.quoted, .reference, .blank]

/-- A token of kind `k` ends in front of `v'`. -/
structure EndsAt (v' : List Char) (k : Kind) : Prop where
  grows : k ∉ growing
  equals : k = .operator → v'.head? ≠ some '='

theorem not_startsNumeral_append (hv : Detached v v') (h : ¬StartsNumeral (c :: (x ++ v))) :
    ¬StartsNumeral (c :: (x ++ v')) := by
  obtain ⟨hnumeral, hsigned⟩ := not_startsNumeral_cons.mp h
  refine not_startsNumeral_cons.mpr ⟨?_, fun hc => ?_⟩
  · have hzero : numeralLength (c :: x ++ v) = 0 := Nat.eq_zero_of_not_pos hnumeral
    have hsame := hv.numeralLength_append (hzero.trans_le (Nat.zero_le _))
    exact Nat.not_lt_of_le (hsame.trans hzero).le
  · have hzero : numeralLength (x ++ v) = 0 := Nat.eq_zero_of_not_pos fun h => hsigned ⟨hc.1, h⟩
    have hsame := hv.numeralLength_append (hzero.trans_le (Nat.zero_le _))
    rw [hsame] at hc
    exact hsigned hc

/-- A bracket that comes next, or the blanks before it, are no part of a word. -/
theorem stops_of_bracketNext (h : bracketNext v = true) : Stops inWord v := by
  rintro d hd
  obtain ⟨rest, rfl⟩ := List.head?_eq_some_iff.mp hd
  by_cases hblank : isBlank d = true
  · exact inWord_of_isBlank hblank
  · rw [bracketNext_eq, List.dropWhile_cons_of_neg hblank, List.head?_cons] at h
    obtain rfl := Option.some.inj (beq_iff_eq.mp h)
    rfl

/-- A word has no bracket behind it if there was none before. -/
theorem bracketNext_dropWhile (hv : Detached v v')
    (h : bracketNext ((x ++ v).dropWhile inWord) = false) :
    bracketNext ((x ++ v').dropWhile inWord) = false := by
  have hrun' := takeWhile_append_of_stops (x := x) hv.word
  rw [dropWhile_append_of_takeWhile hrun', bracketNext_append _ hv.bracket]
  rw [List.dropWhile_append] at h
  split at h
  · next hnil =>
    -- The word went on behind `x`, so no bracket was next there.
    rw [List.isEmpty_iff.mp hnil, List.nil_append]
    by_contra hnext
    have hstops := stops_of_bracketNext (Bool.eq_true_of_not_eq_false hnext)
    have hrun := takeWhile_append_of_stops (x := []) hstops
    have hdrop : v.dropWhile inWord = v := dropWhile_append_of_takeWhile hrun
    rw [hdrop] at h
    exact hnext h
  · exact h

/-- A run of the rule of a growing kind ends before the end of the text. -/
theorem takeWhile_of_growing {p : Char → Bool} (hm : ((x ++ v).takeWhile p).length ≤ x.length)
    (hend : ((x ++ v).takeWhile p).length = x.length → EndsAt v' k) (hk : k ∈ growing) :
    (x ++ v').takeWhile p = (x ++ v).takeWhile p := by
  have hlt : ((x ++ v).takeWhile p).length < x.length :=
    Nat.lt_of_le_of_ne hm fun h => (hend h).grows hk
  have hrun := takeWhile_append_of_le hm
  rw [hrun] at hlt ⊢
  rw [List.takeWhile_append, if_neg (Nat.ne_of_lt hlt)]

/-- Another text behind the first part leaves the rule as it was. -/
theorem PlainRule.splice (h : PlainRule last c (x ++ v) k m) (hm : m ≤ x.length)
    (hend : m = x.length → EndsAt v' k) (hv : Detached v v') : PlainRule last c (x ++ v') k m := by
  cases h with
  | subtraction hc hlast => exact .subtraction hc hlast
  | negative hc hpos hlast =>
    rw [← hv.numeralLength_append hm] at hpos ⊢
    exact .negative hc hpos hlast
  | numeral hpos =>
    have hle : numeralLength (c :: x ++ v) ≤ (c :: x).length := by
      rw [List.length_cons, List.cons_append]
      omega
    have heq := hv.numeralLength_append hle
    rw [List.cons_append, List.cons_append] at heq
    rw [← heq] at hpos ⊢
    exact .numeral hpos
  | name hlast hc hstarts =>
    -- A name goes on over blanks, so it has to end inside the first part.
    rw [← takeWhile_of_growing hm hend (by decide)]
    exact .name hlast hc (not_startsNumeral_append hv hstarts)
  | pair hlast hc hcs =>
    cases x with
    | nil => exact absurd hm (by decide)
    | cons d x => exact .pair hlast hc hcs
  | symbol hlast hc hstarts hpair =>
    -- No equality sign may come to stand behind the symbol of a comparison.
    refine .symbol hlast hc (not_startsNumeral_append hv hstarts) fun h => ?_
    cases x with
    | nil => exact (hend rfl).equals rfl
    | cons d x => exact hpair h
  | call hlast hc hnext =>
    have hrun := takeWhile_append_of_le hm
    have hrun' := takeWhile_append_of_stops (x := x) hv.word
    rw [dropWhile_append_of_takeWhile hrun] at hnext
    rw [hrun, ← hrun']
    refine .call hlast hc ?_
    rwa [dropWhile_append_of_takeWhile hrun', bracketNext_append _ hv.bracket]
  | mark hmark hlast => exact .mark hmark hlast
  | blank hlast hc =>
    rw [← takeWhile_of_growing hm hend (by decide)]
    exact .blank hlast hc
  | unknown hlast hnumeral hsymbol hcall hmark hblank =>
    have hsame := hv.numeralLength_append (x := c :: x) (hnumeral.trans_le (Nat.zero_le _))
    exact .unknown hlast (hsame.trans hnumeral) hsymbol
      (fun h => bracketNext_dropWhile hv (hcall h)) hmark hblank

theorem Rule.splice (h : Rule last c (x ++ v) k m) (hm : m ≤ x.length)
    (hend : m = x.length → EndsAt v' k) (hv : Detached v v') : Rule last c (x ++ v') k m := by
  cases h with
  | opening q hc hlast => exact .opening q hc hlast
  | closing q hc hlast => exact .closing q hc hlast
  | content q hc hlast =>
    have hpos := contentLength_pos hc (x ++ v)
    have hne : contentLength q.mark (c :: (x ++ v)) - 1 ≠ x.length :=
      fun h => (hend h).grows (by decide)
    have hlt : contentLength q.mark (c :: x ++ v) < (c :: x).length := by
      rw [List.length_cons, List.cons_append]
      omega
    have hsame := contentLength_append hlt v'
    rw [List.cons_append, List.cons_append] at hsame
    rw [← hsame]
    exact .content q hc hlast
  | plain hc hlast hplain => exact .plain hc hlast (hplain.splice hm hend hv)

/-! ## Passages -/

theorem lexeme_le (last : Option Kind) (c : Char) (cs : List Char) :
    (lexeme last c cs).2 ≤ cs.length := by
  have hmatches := matches_lexeme last c cs
  have hmatched := matched_le last c cs (lexeme last c cs).1
  rw [Matches] at hmatches
  rw [List.length_cons] at hmatched
  omega

theorem getLast?_added (last : Option Kind) (t : Token) :
    (Step.added last t).getLast? = some t := by
  rw [Step.added]
  split <;> rfl

theorem added_ne_nil (last : Option Kind) (t : Token) : Step.added last t ≠ [] := by
  rw [Step.added]
  split <;> exact List.cons_ne_nil _ _

/-- The scan of `u ++ v` goes over `u` in whole tokens `ts` and comes to `v` behind a token of
    kind `last'`. -/
inductive Passed (v : List Char) : Option Kind → List Char → List Token → Option Kind → Prop where
  | done {last : Option Kind} : Passed v last [] [] last
  | step {last last' : Option Kind} {c : Char} {u : List Char} {k : Kind} {m : Nat}
    {ts : List Token} : Rule last c (u ++ v) k m → m ≤ u.length →
      Passed v (Token.lastKind last ⟨k, String.ofList (c :: u.take m)⟩) (u.drop m) ts last' →
      Passed v last (c :: u) (Step.added last ⟨k, String.ofList (c :: u.take m)⟩ ++ ts) last'

namespace Passed

variable {last' : Option Kind} {u : List Char} {ts : List Token}

theorem tokensAfter_eq (h : Passed v last u ts last') :
    tokensAfter last (u ++ v) = ts ++ tokensAfter last' v := by
  induction h with
  | done => rfl
  | @step last last' c u k m ts hrule hm _ ih =>
    have hfirst : firstToken last c (u ++ v) = ⟨k, String.ofList (c :: u.take m)⟩ := by
      rw [firstToken, hrule.lexeme_eq, List.take_append_of_le_length hm]
    rw [List.cons_append, tokensAfter_eq_added, hfirst, hrule.lexeme_eq,
      List.drop_append_of_le_length hm, ih, List.append_assoc]

theorem eq_of_nil (h : Passed v last u [] last') : u = [] ∧ last' = last := by
  generalize hts : ([] : List Token) = ts at h
  cases h with
  | done => exact ⟨rfl, rfl⟩
  | step _ _ _ => exact absurd (List.append_eq_nil_iff.mp hts.symm).1 (added_ne_nil _ _)

theorem nil_of_eq (h : Passed v last [] ts last') : ts = [] := by
  cases h
  rfl

/-- Behind a token that is not blank the scan goes on with its kind. -/
theorem last_eq (h : Passed v last u ts last') {t : Token} (ht : t ∈ ts.getLast?)
    (hblank : t.kind ≠ .blank) : last' = some t.kind := by
  induction h with
  | done => exact nomatch ht
  | @step last last' c u k m ts _ _ hpassed ih =>
    rw [List.getLast?_append] at ht
    cases hts : ts.getLast? with
    | some s =>
      rw [hts] at ht
      exact ih (hts.trans ht)
    | none =>
      rw [hts, getLast?_added, Option.none_or] at ht
      obtain rfl := List.getLast?_eq_none_iff.mp hts
      obtain rfl := Option.some.inj ht
      rw [hpassed.eq_of_nil.2, Token.lastKind, if_neg (by simpa [Token.isBlank] using hblank)]

/-- Another text behind the first part leaves its tokens as they were. -/
theorem splice (h : Passed v last u ts last') (hend : ∀ t ∈ ts.getLast?, EndsAt v' t.kind)
    (hv : Detached v v') : Passed v' last u ts last' := by
  induction h with
  | done => exact .done
  | @step last last' c u k m ts hrule hm hpassed ih =>
    rw [List.getLast?_append] at hend
    refine .step (hrule.splice hm (fun hwhole => ?_) hv) hm (ih fun t ht => hend t ?_)
    · -- The token ends where the first part ends, so it is the last one.
      rw [hwhole, List.drop_length] at hpassed
      obtain rfl := hpassed.nil_of_eq
      exact hend ⟨k, _⟩ (by rw [getLast?_added]; rfl)
    · rw [ht]
      rfl

theorem joined_eq (h : Passed v last u ts last') : Token.joined ts = String.ofList u := by
  have hwhole := joined_tokensAfter last (u ++ v)
  rw [h.tokensAfter_eq, Token.joined_append, joined_tokensAfter, String.ofList_append] at hwhole
  exact String.append_left_inj _ |>.mp hwhole

/-- A passage goes on from the first token of a text. -/
theorem behind {y : List Char} (hy : y.length = (lexeme last c (y ++ (u ++ v))).2)
    (h : Passed v ((firstToken last c (y ++ (u ++ v))).lastKind last) u ts last') :
    Passed v last (c :: (y ++ u)) (Step.added last (firstToken last c (y ++ (u ++ v))) ++ ts)
      last' := by
  have hfirst : firstToken last c (y ++ (u ++ v)) =
      ⟨(lexeme last c (y ++ (u ++ v))).1, String.ofList (c :: (y ++ u).take y.length)⟩ := by
    rw [firstToken, ← hy, List.take_left, List.take_left]
  have hrule : Rule last c ((y ++ u) ++ v) (lexeme last c (y ++ (u ++ v))).1 y.length := by
    rw [hy, List.append_assoc]
    exact rule_lexeme last c (y ++ (u ++ v))
  have hle : y.length ≤ (y ++ u).length := by
    rw [List.length_append]
    exact Nat.le_add_right _ _
  rw [hfirst] at h ⊢
  refine .step hrule hle ?_
  rwa [List.drop_left]

end Passed

/-- A boundary between tokens is not inside the tokens that one step adds, unless it stands behind
    the content of an empty literal. -/
theorem exists_rest {last : Option Kind} {t : Token} {ts before after : List Token}
    (h : Step.added last t ++ ts = before ++ after) (hbefore : before ≠ [])
    (hend : ∀ t ∈ before.getLast?, t.kind ≠ .quoted) :
    ∃ rest, before = Step.added last t ++ rest ∧ ts = rest ++ after := by
  rw [Step.added] at h ⊢
  split at h
  · next hcloses =>
    rw [if_pos hcloses]
    obtain ⟨u, rest, rfl⟩ := List.exists_cons_of_ne_nil hbefore
    rw [List.cons_append, List.cons_append] at h
    obtain ⟨rfl, hrest⟩ := List.cons.inj h
    -- An empty content comes together with its closing quote, and the cut is not between them.
    cases rest with
    | nil => exact absurd rfl (hend _ rfl)
    | cons v rest =>
      obtain ⟨rfl, htail⟩ := List.cons.inj hrest
      exact ⟨rest, rfl, htail⟩
  · next hcloses =>
    rw [if_neg hcloses]
    obtain ⟨u, rest, rfl⟩ := List.exists_cons_of_ne_nil hbefore
    rw [List.singleton_append, List.cons_append] at h
    obtain ⟨rfl, hrest⟩ := List.cons.inj h
    exact ⟨rest, rfl, hrest⟩

/-- A scan that has given some tokens has gone over the text that they cover. -/
theorem exists_passed {last : Option Kind} {cs : List Char} {before after : List Token}
    (h : tokensAfter last cs = before ++ after) (hend : ∀ t ∈ before.getLast?, t.kind ≠ .quoted) :
    ∃ u v last', cs = u ++ v ∧ Passed v last u before last' ∧ tokensAfter last' v = after := by
  -- On the length of the text: a step takes its own tokens off the front of both lists.
  generalize hlen : cs.length = l
  induction l using Nat.strongRecOn generalizing last cs before with
  | ind l ih =>
    by_cases hbefore : before = []
    · subst hbefore
      exact ⟨[], cs, last, rfl, .done, h⟩
    cases cs with
    | nil =>
      rw [tokensAfter] at h
      exact absurd (List.append_eq_nil_iff.mp h.symm).1 hbefore
    | cons c cs =>
      rw [tokensAfter_eq_added] at h
      obtain ⟨rest, rfl, hrest⟩ := exists_rest h hbefore hend
      have hend' : ∀ t ∈ rest.getLast?, t.kind ≠ .quoted := by
        intro t ht
        refine hend t ?_
        rw [List.getLast?_append, ht]
        rfl
      obtain ⟨y, r, hcs, hy⟩ : ∃ y r, cs = y ++ r ∧ y.length = (lexeme last c cs).2 :=
        ⟨_, _, (List.take_append_drop _ cs).symm,
          List.length_take_of_le (lexeme_le last c cs)⟩
      have hdrop : cs.drop (lexeme last c cs).2 = r := by
        rw [← hy, hcs, List.drop_left]
      have hlt : r.length < l := by
        rw [← hlen, hcs, List.length_cons, List.length_append]
        omega
      rw [hdrop] at hrest
      obtain ⟨u, v, last', rfl, hpassed, htokens⟩ := ih _ hlt hrest hend' rfl
      subst hcs
      exact ⟨c :: (y ++ u), v, last', congrArg (c :: ·) (List.append_assoc y u v).symm,
        hpassed.behind hy, htokens⟩

/-! ## Blanks between tokens -/

/-- Blanks where the scan comes to them outside braces and literals. -/
theorem significant_dropWhile {last : Option Kind} (hbrace : last ≠ some .openBrace)
    (hopen : ∀ q : Quote, last ≠ some q.opening.kind) (cs : List Char) :
    significant (tokensAfter last (cs.dropWhile isBlank)) = significant (tokensAfter last cs) := by
  cases cs with
  | nil => rfl
  | cons c cs =>
    by_cases hc : isBlank c = true
    · obtain ⟨s, hs⟩ := tokensAfter_blank hbrace hopen hc cs
      rw [List.dropWhile_cons_of_pos hc, hs]
      rfl
    · rw [List.dropWhile_cons_of_neg hc]

/-- Kinds behind which a blank is part of a name or a literal. -/
def enclosing : List Kind := [.openBrace, .reference, .openQuote, .openDoubleQuote, .quoted]

/-- Tokens behind which the scan takes a blank for a new token. -/
def TakesBlank (ts : List Token) : Prop := ∀ t ∈ ts.getLast?, t.kind ∉ .blank :: enclosing

theorem TakesBlank.ne_quoted {ts : List Token} (h : TakesBlank ts) :
    ∀ t ∈ ts.getLast?, t.kind ≠ .quoted := by
  intro t ht hk
  exact h t ht (by rw [hk]; decide)

/-- The kind with which the scan goes on behind such tokens. -/
theorem Passed.last_ne {last' : Option Kind} {u : List Char} {ts : List Token}
    (h : Passed v none u ts last') (hts : TakesBlank ts) {k : Kind} (hk : k ∈ enclosing) :
    last' ≠ some k := by
  rintro rfl
  cases hlast : ts.getLast? with
  | none =>
    obtain rfl := List.getLast?_eq_none_iff.mp hlast
    exact nomatch h.eq_of_nil.2
  | some t =>
    obtain ⟨hblank, henclosing⟩ := not_or.mp (mt List.mem_cons.mpr (hts t hlast))
    obtain rfl := Option.some.inj (h.last_eq hlast hblank)
    exact henclosing hk

/-- Blanks behind the first part of a text leave its own tokens and all tokens behind it. -/
theorem Passed.significant_splice {last' : Option Kind} {u : List Char} {ts : List Token}
    (h : Passed v none u ts last') (hts : TakesBlank ts) (hv : Blanked v v') :
    significant (tokensAfter none (u ++ v')) = significant (tokensAfter none (u ++ v)) := by
  have hgrowing : ∀ k ∈ growing, k ∈ .blank :: enclosing := by decide
  have hends : ∀ t ∈ ts.getLast?, EndsAt v' t.kind := fun t ht =>
    ⟨fun hk => hts t ht (hgrowing _ hk), fun _ => hv.head?_ne rfl⟩
  have hspliced := h.splice hends hv.detached
  have hbrace : last' ≠ some .openBrace := h.last_ne hts (by decide)
  have hopen (q : Quote) : last' ≠ some q.opening.kind :=
    h.last_ne hts (by cases q <;> decide)
  calc significant (tokensAfter none (u ++ v'))
    _ = significant ts ++ significant (tokensAfter last' v') := by
      rw [hspliced.tokensAfter_eq, Token.significant_append]
    _ = significant ts ++ significant (tokensAfter last' v) := by
      rw [← significant_dropWhile hbrace hopen v', hv.same, significant_dropWhile hbrace hopen]
    _ = significant (tokensAfter none (u ++ v)) := by
      rw [h.tokensAfter_eq, Token.significant_append]

/-- No blank token stands directly behind a token of these kinds. -/
theorem Placed.next_ne_blank {front back : List Token} {t : Token} (h : Placed front t back)
    (hk : t.kind ∈ .blank :: enclosing) : ∀ u ∈ back.head?, u.kind ≠ .blank := by
  simp only [enclosing, List.mem_cons, List.not_mem_nil, or_false] at hk
  rw [Placed] at h
  rcases hk with hk | hk | hk | hk | hk | hk <;> rw [hk] at h
  · exact h
  · exact h
  · obtain ⟨-, -, rfl | ⟨b, rfl | rfl⟩⟩ := h <;> simp [Token.leftBrace, Token.rightBrace]
  · obtain rfl | ⟨s, b, rfl⟩ := h <;> simp
  · obtain rfl | ⟨s, b, rfl⟩ := h <;> simp
  · obtain ⟨q, -, rfl | ⟨b, rfl⟩⟩ := h
    · simp
    · cases q <;> simp [Quote.closing]

/-- A blank token covers blanks. -/
theorem isBlank_of_mem_text {last : Option Kind} {cs : List Char} {b : Token}
    (h : b ∈ tokensAfter last cs) (hb : b.kind = .blank) :
    ∀ d ∈ b.text.toList, isBlank d = true := by
  have hne : b ≠ ⟨.quoted, ""⟩ := by
    rintro rfl
    exact nomatch hb
  obtain ⟨last', c, rest, rfl⟩ := exists_firstToken_of_mem h hne
  obtain ⟨hc, -, -, hm⟩ := (rule_lexeme last' c rest).blank_inv hb
  rw [firstToken, String.toList_ofList, hm, take_length_takeWhile]
  rintro d (_ | ⟨_, hd⟩)
  · exact hc
  · exact List.mem_takeWhile_imp hd

/-- What stands in front of a blank token takes a blank. -/
theorem takesBlank_of_tokenize {formula : String} {before after : List Token} {b : Token}
    (h : tokenize formula = before ++ b :: after) (hb : b.kind = .blank) : TakesBlank before := by
  intro t ht hk
  obtain ⟨front, rfl⟩ := List.getLast?_eq_some_iff.mp ht
  rw [List.append_assoc] at h
  have hplaced := allPlaced_tokensAfter (ready_none [] formula.toList) front t (b :: after) h
  exact hplaced.next_ne_blank hk b rfl hb

/-- Blanks in front of the last tokens of a formula, with blanks of its own there or not. -/
theorem significant_tokenize_of_blanked {formula : String} {before after : List Token}
    {w : List Char} (h : tokenize formula = before ++ after) (hbefore : TakesBlank before)
    (hw : Blanked (Token.joined after).toList w) :
    significant (tokenize (Token.joined before ++ String.ofList w)) =
      significant (tokenize formula) := by
  obtain ⟨u, v, last', hformula, hpassed, rfl⟩ := exists_passed h hbefore.ne_quoted
  rw [joined_tokensAfter, String.toList_ofList] at hw
  have htext : (Token.joined before ++ String.ofList w).toList = u ++ w := by
    rw [hpassed.joined_eq, ← String.ofList_append, String.toList_ofList]
  rw [tokenize, tokenize, htext, hformula]
  exact hpassed.significant_splice hbefore hw

/-- **Blanks.** Blanks between two tokens, or at the start or the end, leave the tokens of a
    formula, unless they stand inside braces or quotes. -/
theorem significant_tokenize_insert {formula w : String} {before after : List Token}
    (h : tokenize formula = before ++ after) (hbefore : ∀ t ∈ before.getLast?, t.kind ∉ enclosing)
    (hw : ∀ c ∈ w.toList, isBlank c = true) :
    significant (tokenize (Token.joined before ++ w ++ Token.joined after)) =
      significant (tokenize formula) := by
  by_cases hempty : w = ""
  · subst hempty
    rw [String.append_empty, ← Token.joined_append, ← h, joined_tokenize]
  have hne : w.toList ≠ [] := fun h => hempty (String.toList_eq_nil_iff.mp h)
  by_cases hblank : ∃ front b, before = front ++ [b] ∧ b.kind = .blank
  · -- The blanks go on the blank token before them.
    obtain ⟨front, b, rfl, hb⟩ := hblank
    rw [List.append_assoc, List.singleton_append] at h
    have hfront := takesBlank_of_tokenize h hb
    have hmem : b ∈ tokenize formula := by simp [h]
    have hblanked := Blanked.insert (isBlank_of_mem_text hmem hb) hw hne (Token.joined after).toList
    rw [← String.toList_append, ← Token.joined_cons] at hblanked
    rw [← significant_tokenize_of_blanked h hfront hblanked]
    simp [Token.joined_append, String.append_assoc, String.ofList_append]
  · have htakes : TakesBlank before := by
      intro t ht hk
      rcases List.mem_cons.mp hk with hk | hk
      · obtain ⟨front, rfl⟩ := List.getLast?_eq_some_iff.mp ht
        exact hblank ⟨front, t, rfl, hk⟩
      · exact hbefore t ht hk
    have hblanked : Blanked (Token.joined after).toList (w.toList ++ (Token.joined after).toList) :=
      Blanked.insert (x := []) nofun hw hne (Token.joined after).toList
    rw [← significant_tokenize_of_blanked h htakes hblanked]
    simp [String.append_assoc, String.ofList_append]

end Scan

end Formulary
