/-
  Formulary.Proofs.FaultOrder

  The order of the faults of a token list, and what is not closed in it.

  The check tells of the tokens as it comes to them (`tokenFaults`) and at the end of what is
  then open (`openAtEnd`), so its faults stand in the order of the tokens twice over.

  What is open at the end is said here without a stack. `Even p ts` says that everything that
  is opened in `ts` is closed in it, last opened first closed, and that no token of `ts` closes
  a pair `p` that was open before; a closing token of another pair closes nothing. So `p` is
  closed behind such tokens, by the first token that closes `p` there (`ClosedIn`), and the pairs
  that are not closed are those that the check tells of (`check_ordered`).
-/

import Formulary.Proofs.TokenProblems

namespace Formulary

/-! ## Pairs -/

/-- Two kinds of tokens that enclose what stands between them. -/
inductive Pair where
  | quotes
  | doubleQuotes
  | brackets
  | braces
  deriving DecidableEq, Repr

namespace Pair

/-- The pair that a token of a kind opens. -/
def opened? : Kind → Option Pair
  | .openQuote => some quotes
  | .openDoubleQuote => some doubleQuotes
  | .openBracket => some brackets
  | .openBrace => some braces
  | _ => none

/-- The pair that a token of a kind closes. -/
def closed? : Kind → Option Pair
  | .closeQuote => some quotes
  | .closeDoubleQuote => some doubleQuotes
  | .closeBracket => some brackets
  | .closeBrace => some braces
  | _ => none

/-- The problem of a pair that is never closed. -/
def unclosed : Pair → Problem
  | quotes => .unclosedQuote
  | doubleQuotes => .unclosedDoubleQuote
  | brackets => .unclosedBracket
  | braces => .unclosedReferenceBracket

end Pair

/-- Tokens that close whatever they open, last opened first closed, and leave open a pair `outer`
    that was opened before them. -/
inductive Even : Pair → List Token → Prop where
  | nil {outer : Pair} : Even outer []
  /-- A closing token of another pair closes nothing. -/
  | other {outer : Pair} {t : Token} {ts : List Token} : Pair.opened? t.kind = none →
    Pair.closed? t.kind ≠ some outer → Even outer ts → Even outer (t :: ts)
  | pair {outer inner : Pair} {t u : Token} {ts us : List Token} :
    Pair.opened? t.kind = some inner → Even inner ts → Pair.closed? u.kind = some inner →
      Even outer us → Even outer (t :: (ts ++ u :: us))

/-- A pair that is open before some tokens is closed in them. -/
def ClosedIn (p : Pair) (ts : List Token) : Prop :=
  ∃ inside u rest, ts = inside ++ u :: rest ∧ Even p inside ∧ Pair.closed? u.kind = some p

/-- Whether a problem is that of something that is never closed. -/
def Problem.isUnclosed : Problem → Bool
  | unclosedQuote | unclosedDoubleQuote | unclosedBracket | unclosedReferenceBracket => true
  | _ => false

/-- The pair of what a token has opened; the bracket of a call is a bracket as any other. -/
def Opening.pair : Opening → Pair
  | quote => .quotes
  | doubleQuote => .doubleQuotes
  | call | group => .brackets
  | brace => .braces

theorem Opening.unclosed_pair (o : Opening) : o.pair.unclosed = o.unclosed := by
  cases o <;> rfl

theorem Opening.isUnclosed_unclosed (o : Opening) : o.unclosed.isUnclosed = true := by
  cases o <;> rfl

namespace Fault

/-- The number of the token that a fault concerns. -/
def index? (f : Fault) : Option Nat := f.place.map Prod.fst

/-! ## Two parts of the check -/

/-- The faults of the tokens themselves, from the token with the given index on. -/
def tokenFaults (allowed : Option (List String)) (index : Nat) (before : Option Kind)
    (opened : List Open) : List Token → List Fault
  | [] => []
  | t :: ts =>
    (problems allowed before (nextKind ts) (opened.map Open.opening) t).map (atToken index t) ++
      tokenFaults allowed (index + 1) (t.lastKind before) (openBehind before opened index t) ts

/-- What is open behind the last token. -/
def openAtEnd (index : Nat) (before : Option Kind) (opened : List Open) : List Token → List Open
  | [] => opened
  | t :: ts => openAtEnd (index + 1) (t.lastKind before) (openBehind before opened index t) ts

theorem checkFrom_eq_append (allowed : Option (List String)) (index : Nat) (before : Option Kind)
    (opened : List Open) (ts : List Token) :
    checkFrom allowed index before opened ts =
      tokenFaults allowed index before opened ts ++
        ofUnclosed (openAtEnd index before opened ts) := by
  induction ts generalizing index before opened with
  | nil => rfl
  | cons t ts ih => rw [checkFrom, ih, tokenFaults, openAtEnd, List.append_assoc]

theorem openAtEnd_append (index : Nat) (before : Option Kind) (opened : List Open)
    (ts us : List Token) :
    openAtEnd index before opened (ts ++ us) =
      openAtEnd (index + ts.length) (ts.foldl Token.lastKind before)
        (openAtEnd index before opened ts) us := by
  induction ts generalizing index before opened with
  | nil => rfl
  | cons t ts ih =>
    rw [List.cons_append, openAtEnd, ih, openAtEnd, List.length_cons, List.foldl_cons,
      Nat.add_right_comm, Nat.add_assoc]

/-! ## Faults of tokens -/

variable {allowed : Option (List String)} {index : Nat} {before : Option Kind}
  {opened outer : List Open} {o : Open} {t u : Token} {ts us : List Token} {f : Fault}

/-- A fault of the tokens concerns one of them, and a problem of its kind. -/
theorem exists_of_mem_tokenFaults (h : f ∈ tokenFaults allowed index before opened ts) :
    ∃ i t p, f = atToken (index + i) t p ∧ ts[i]? = some t ∧ p ∈ t.kind.problems := by
  induction ts generalizing index before opened with
  | nil => exact absurd h List.not_mem_nil
  | cons t ts ih =>
    rw [tokenFaults] at h
    rcases List.mem_append.mp h with h | h
    · obtain ⟨p, hp, rfl⟩ := List.mem_map.mp h
      exact ⟨0, t, p, rfl, rfl, problems_sublist.subset hp⟩
    · obtain ⟨i, u, p, rfl, hu, hp⟩ := ih h
      exact ⟨i + 1, u, p, by rw [Nat.add_assoc, Nat.add_comm 1 i], hu, hp⟩

/-- `f` concerns an earlier token than `g`, or another problem of the same token. -/
def Precedes (f g : Fault) : Prop :=
  ∀ i ∈ f.index?, ∀ j ∈ g.index?, i < j ∨ i = j ∧ f.problem ≠ g.problem

theorem precedes_atToken {i j : Nat} {p q : Problem} :
    Precedes (atToken i t p) (atToken j u q) ↔ i < j ∨ i = j ∧ p ≠ q := by
  simp [Precedes, index?, atToken]

theorem pairwise_tokenFaults (allowed : Option (List String)) (index : Nat)
    (before : Option Kind) (opened : List Open) (ts : List Token) :
    (tokenFaults allowed index before opened ts).Pairwise Precedes := by
  induction ts generalizing index before opened with
  | nil => exact .nil
  | cons t ts ih =>
    have hkind : ∀ k : Kind, k.problems.Nodup := by
      intro k
      cases k <;> decide
    have hown : (problems allowed before (nextKind ts) (opened.map Open.opening) t).Nodup :=
      problems_sublist.nodup (hkind t.kind)
    refine List.pairwise_append.mpr ⟨?_, ih _ _ _, fun f hf g hg => ?_⟩
    · exact List.pairwise_map.mpr (hown.imp fun hne => precedes_atToken.mpr (.inr ⟨rfl, hne⟩))
    · obtain ⟨p, -, rfl⟩ := List.mem_map.mp hf
      obtain ⟨i, u, q, rfl, -⟩ := exists_of_mem_tokenFaults hg
      exact precedes_atToken.mpr (.inl (by omega))

/-! ## What is open behind a token -/

theorem map_pair_opens (before : Option Kind) (t : Token) :
    (opens before t).map Opening.pair = Pair.opened? t.kind := by
  obtain ⟨k, s⟩ := t
  cases k with
  | openBracket =>
    show some (Opening.pair (if before = some .function then .call else .group)) = some .brackets
    split <;> rfl
  | _ => rfl

theorem closes_iff (t : Token) (o : Opening) :
    closes t o = true ↔ Pair.closed? t.kind = some o.pair := by
  obtain ⟨k, s⟩ := t
  cases k <;> cases o <;> simp [closes, Pair.closed?, Opening.pair, Opening.isBracket]

theorem opened?_of_closed? {k : Kind} {p : Pair} (h : Pair.closed? k = some p) :
    Pair.opened? k = none := by
  cases k <;> first | rfl | exact nomatch h

theorem exists_openBehind_of_opened? {p : Pair} (h : Pair.opened? t.kind = some p)
    (before : Option Kind) (opened : List Open) (index : Nat) :
    ∃ q : Opening, q.pair = p ∧ openBehind before opened index t = ⟨q, index, t⟩ :: opened := by
  rw [← map_pair_opens before] at h
  obtain ⟨q, hq, hp⟩ := Option.map_eq_some_iff.mp h
  exact ⟨q, hp, by simp only [openBehind, hq]⟩

theorem opens_of_opened?_eq_none (h : Pair.opened? t.kind = none) (before : Option Kind) :
    opens before t = none := by
  rwa [← map_pair_opens before, Option.map_eq_none_iff] at h

theorem openBehind_of_closed? (h : Pair.closed? t.kind = some o.opening.pair)
    (before : Option Kind) (outer : List Open) (index : Nat) :
    openBehind before (o :: outer) index t = outer := by
  simp only [openBehind, opens_of_opened?_eq_none (opened?_of_closed? h)]
  exact if_pos ((closes_iff t o.opening).mpr h)

theorem openBehind_of_ne (ho : Pair.opened? t.kind = none)
    (hc : Pair.closed? t.kind ≠ some o.opening.pair) (before : Option Kind) (outer : List Open)
    (index : Nat) : openBehind before (o :: outer) index t = o :: outer := by
  simp only [openBehind, opens_of_opened?_eq_none ho]
  exact if_neg (mt (closes_iff t o.opening).mp hc)

/-- A token that opens nothing leaves open no more than what was open. -/
theorem openBehind_sublist (h : Pair.opened? t.kind = none) (before : Option Kind)
    (opened : List Open) (index : Nat) : (openBehind before opened index t).Sublist opened := by
  cases opened with
  | nil =>
    simp only [openBehind, opens_of_opened?_eq_none h]
    exact List.Sublist.refl _
  | cons o outer =>
    by_cases hc : Pair.closed? t.kind = some o.opening.pair
    · rw [openBehind_of_closed? hc]
      exact List.sublist_cons_self o outer
    · simp only [openBehind_of_ne h hc, List.Sublist.refl]

/-! ## The stack -/

/-- What is open in front of the token with number `n`: the innermost first, each with its token
    and what the token opens. -/
structure Stacked (ts : List Token) (n : Nat) (opened : List Open) : Prop where
  order : opened.Pairwise fun o p => p.index < o.index
  below : ∀ o ∈ opened, o.index < n
  token : ∀ o ∈ opened, ts[o.index]? = some o.token
  opens : ∀ o ∈ opened, Pair.opened? o.token.kind = some o.opening.pair

theorem stacked_nil (ts : List Token) (n : Nat) : Stacked ts n [] :=
  ⟨.nil, nofun, nofun, nofun⟩

theorem Stacked.openBehind {front : List Token}
    (h : Stacked (front ++ t :: ts) front.length opened) (before : Option Kind) :
    Stacked (front ++ t :: ts) (front.length + 1)
      (Fault.openBehind before opened front.length t) := by
  cases hp : Pair.opened? t.kind with
  | none =>
    have hsub := openBehind_sublist hp before opened front.length
    exact ⟨h.order.sublist hsub, fun o ho => Nat.lt_succ_of_lt (h.below o (hsub.subset ho)),
      fun o ho => h.token o (hsub.subset ho), fun o ho => h.opens o (hsub.subset ho)⟩
  | some p =>
    obtain ⟨q, hq, hopened⟩ := exists_openBehind_of_opened? hp before opened front.length
    rw [hopened]
    refine ⟨List.pairwise_cons.mpr ⟨h.below, h.order⟩, ?_, ?_, ?_⟩
    · exact List.forall_mem_cons.mpr
        ⟨Nat.lt_succ_self _, fun o ho => Nat.lt_succ_of_lt (h.below o ho)⟩
    · exact List.forall_mem_cons.mpr ⟨by simp, h.token⟩
    · exact List.forall_mem_cons.mpr ⟨hp.trans (congrArg some hq.symm), h.opens⟩

theorem Stacked.openAtEnd {front : List Token} (h : Stacked (front ++ ts) front.length opened)
    (before : Option Kind) :
    Stacked (front ++ ts) (front ++ ts).length (openAtEnd front.length before opened ts) := by
  induction ts generalizing front before opened with
  | nil => rwa [List.append_nil] at h ⊢
  | cons t ts ih =>
    have hstep := h.openBehind before
    have hfront : front ++ t :: ts = (front ++ [t]) ++ ts := by simp
    have hlen : front.length + 1 = (front ++ [t]).length := by simp
    rw [Fault.openAtEnd, hlen]
    rw [hfront, hlen] at hstep
    rw [hfront]
    exact ih hstep _

/-- What is open at the end was open before, or a token from the given one on has opened it. -/
theorem mem_or_le_of_mem_openAtEnd (h : o ∈ openAtEnd index before opened ts) :
    o ∈ opened ∨ index ≤ o.index := by
  induction ts generalizing index before opened with
  | nil => exact .inl h
  | cons t ts ih =>
    rcases ih h with hopen | hle
    · cases hp : Pair.opened? t.kind with
      | none => exact .inl ((openBehind_sublist hp before opened index).subset hopen)
      | some p =>
        obtain ⟨q, -, hopened⟩ := exists_openBehind_of_opened? hp before opened index
        rw [hopened] at hopen
        rcases List.mem_cons.mp hopen with rfl | hopen
        · exact .inr (Nat.le_refl index)
        · exact .inl hopen
    · exact .inr (Nat.le_of_succ_le hle)

/-! ## Pairs that are closed -/

/-- Even tokens leave open what was open last. -/
theorem openAtEnd_even {p : Pair} (h : Even p ts) (ho : o.opening.pair = p) (index : Nat)
    (before : Option Kind) (outer : List Open) :
    openAtEnd index before (o :: outer) ts = o :: outer := by
  induction h generalizing o index before outer with
  | nil => rfl
  | other hopened hclosed _ ih =>
    subst ho
    rw [Fault.openAtEnd, openBehind_of_ne hopened hclosed]
    exact ih rfl _ _ _
  | pair hopened _ hclosed _ ihinner ihouter =>
    obtain ⟨q, hq, hbehind⟩ := exists_openBehind_of_opened? hopened before (o :: outer) index
    subst hq
    rw [Fault.openAtEnd, hbehind, openAtEnd_append, ihinner rfl, Fault.openAtEnd,
      openBehind_of_closed? hclosed]
    exact ihouter ho _ _ _

/-- A token that closes what was open last, behind even tokens. -/
theorem openAtEnd_of_even (heven : Even o.opening.pair ts)
    (hu : Pair.closed? u.kind = some o.opening.pair) (index : Nat) (before : Option Kind)
    (outer : List Open) (us : List Token) :
    openAtEnd index before (o :: outer) (ts ++ u :: us) =
      openAtEnd (index + ts.length + 1) (u.lastKind (ts.foldl Token.lastKind before)) outer us := by
  rw [openAtEnd_append, openAtEnd_even heven rfl, openAtEnd, openBehind_of_closed? hu]

/-- What is not closed stays open. -/
theorem closedIn_or_remains (ts : List Token) (o : Open) (index : Nat) (before : Option Kind)
    (outer : List Open) :
    ClosedIn o.opening.pair ts ∨
      ∃ later, openAtEnd index before (o :: outer) ts = later ++ o :: outer := by
  -- On the number of tokens: behind a pair that is closed the tokens go on with a later one.
  generalize hlen : ts.length = n
  induction n using Nat.strongRecOn generalizing ts o index before outer with
  | ind n ih =>
    cases ts with
    | nil => exact .inr ⟨[], rfl⟩
    | cons t ts =>
      rw [List.length_cons] at hlen
      cases hopened : Pair.opened? t.kind with
      | none =>
        by_cases hclosed : Pair.closed? t.kind = some o.opening.pair
        · exact .inl ⟨[], t, ts, rfl, .nil, hclosed⟩
        · rw [openAtEnd, openBehind_of_ne hopened hclosed]
          refine (ih _ (by omega) ts o (index + 1) (t.lastKind before) outer rfl).imp_left ?_
          rintro ⟨inside, u, rest, rfl, heven, hu⟩
          exact ⟨t :: inside, u, rest, rfl, .other hopened hclosed heven, hu⟩
      | some p =>
        obtain ⟨q, rfl, hbehind⟩ := exists_openBehind_of_opened? hopened before (o :: outer) index
        rw [openAtEnd, hbehind]
        rcases ih _ (by omega) ts ⟨q, index, t⟩ (index + 1) (t.lastKind before) (o :: outer) rfl
          with ⟨inside, u, rest, rfl, heven, hu⟩ | ⟨later, hlater⟩
        · rw [openAtEnd_of_even heven hu]
          rw [List.length_append, List.length_cons] at hlen
          refine (ih _ (by omega) rest o _ _ outer rfl).imp_left ?_
          rintro ⟨inside', u', rest', rfl, heven', hu'⟩
          exact ⟨t :: (inside ++ u :: inside'), u', rest', by simp, .pair hopened heven hu heven',
            hu'⟩
        · exact .inr ⟨later ++ [⟨q, index, t⟩], by rw [hlater, List.append_assoc]; rfl⟩

/-- What is open is so at the end exactly if it is not closed. -/
theorem mem_openAtEnd_iff (houter : ∀ p ∈ outer, p.index < o.index) (before : Option Kind)
    (ts : List Token) :
    o ∈ openAtEnd (o.index + 1) before (o :: outer) ts ↔ ¬ClosedIn o.opening.pair ts := by
  constructor
  · rintro h ⟨inside, u, rest, rfl, heven, hu⟩
    rw [openAtEnd_of_even heven hu] at h
    rcases mem_or_le_of_mem_openAtEnd h with hmem | hle
    · exact Nat.lt_irrefl _ (houter o hmem)
    · omega
  · intro h
    obtain ⟨later, hlater⟩ := (closedIn_or_remains ts o (o.index + 1) before outer).resolve_left h
    rw [hlater]
    exact List.mem_append_right later List.mem_cons_self

/-! ## Pairs that are not closed -/

theorem stacked_openAtEnd (ts : List Token) : Stacked ts ts.length (openAtEnd 0 none [] ts) :=
  Stacked.openAtEnd (stacked_nil ([] ++ ts) 0) none

/-- A token that opens something is put on the stack of the tokens before it. -/
theorem exists_openAtEnd_append {p : Pair} (h : Pair.opened? t.kind = some p)
    (front back : List Token) :
    ∃ (q : Opening) (kind : Option Kind) (outer : List Open), q.pair = p ∧
      (∀ o ∈ outer, o.index < front.length) ∧ openAtEnd 0 none [] (front ++ t :: back) =
        openAtEnd (front.length + 1) kind (⟨q, front.length, t⟩ :: outer) back := by
  obtain ⟨q, hq, hbehind⟩ := exists_openBehind_of_opened? h (front.foldl Token.lastKind none)
    (openAtEnd 0 none [] front) front.length
  refine ⟨q, t.lastKind (front.foldl Token.lastKind none), openAtEnd 0 none [] front, hq,
    (stacked_openAtEnd front).below, ?_⟩
  rw [openAtEnd_append, openAtEnd, Nat.zero_add, hbehind]

/-- What is told at the end are the pairs that are not closed. -/
theorem mem_ofUnclosed_iff (ts : List Token) (f : Fault) :
    f ∈ ofUnclosed (openAtEnd 0 none [] ts) ↔
      ∃ front t back p, ts = front ++ t :: back ∧ Pair.opened? t.kind = some p ∧
        ¬ClosedIn p back ∧ f = atToken front.length t p.unclosed := by
  rw [ofUnclosed, List.mem_map]
  constructor
  · rintro ⟨o, ho, rfl⟩
    rw [List.mem_reverse] at ho
    have hopens := (stacked_openAtEnd ts).opens o ho
    obtain ⟨hlt, htoken⟩ := List.getElem?_eq_some_iff.mp ((stacked_openAtEnd ts).token o ho)
    have hts : ts = ts.take o.index ++ o.token :: ts.drop (o.index + 1) := by
      rw [← htoken, ← List.drop_eq_getElem_cons hlt, List.take_append_drop]
    have hfront : (ts.take o.index).length = o.index := List.length_take_of_le (Nat.le_of_lt hlt)
    obtain ⟨q, kind, outer, -, houter, hend⟩ :=
      exists_openAtEnd_append hopens (ts.take o.index) (ts.drop (o.index + 1))
    rw [← hts, hfront] at hend
    rw [hfront] at houter
    rw [hend] at ho
    -- Only the token's own entry has its index.
    have hself : o = ⟨q, o.index, o.token⟩ := by
      rcases mem_or_le_of_mem_openAtEnd ho with hmem | hle
      · rcases List.mem_cons.mp hmem with h | h
        · exact h
        · exact absurd (houter o h) (Nat.lt_irrefl _)
      · exact absurd hle (Nat.not_succ_le_self _)
    rw [← hself] at ho
    refine ⟨_, o.token, _, o.opening.pair, hts, hopens, (mem_openAtEnd_iff houter kind _).mp ho, ?_⟩
    rw [hfront, Opening.unclosed_pair]
  · rintro ⟨front, t, back, p, rfl, ht, hclosed, rfl⟩
    obtain ⟨q, kind, outer, rfl, houter, hend⟩ := exists_openAtEnd_append ht front back
    refine ⟨⟨q, front.length, t⟩, ?_, by rw [Opening.unclosed_pair]⟩
    rw [List.mem_reverse, hend]
    exact (mem_openAtEnd_iff (o := ⟨q, front.length, t⟩) houter kind back).mpr hclosed

/-! ## All faults -/

/-- A fault concerns a token of the list, at its number. -/
def PlacedIn (ts : List Token) (f : Fault) : Prop :=
  ∃ i t, f.place = some (i, t) ∧ ts[i]? = some t

theorem placedIn_of_mem_tokenFaults (h : f ∈ tokenFaults allowed 0 before opened ts) :
    PlacedIn ts f := by
  obtain ⟨i, t, p, rfl, ht, -⟩ := exists_of_mem_tokenFaults h
  exact ⟨i, t, by rw [Nat.zero_add]; rfl, ht⟩

theorem placedIn_of_mem_ofUnclosed (h : f ∈ ofUnclosed (openAtEnd 0 none [] ts)) :
    PlacedIn ts f := by
  obtain ⟨o, ho, rfl⟩ := List.mem_map.mp h
  exact ⟨o.index, o.token, rfl, (stacked_openAtEnd ts).token o (List.mem_reverse.mp ho)⟩

theorem isUnclosed_of_mem_tokenFaults (h : f ∈ tokenFaults allowed index before opened ts) :
    f.problem.isUnclosed = false := by
  have hkind : ∀ k : Kind, ∀ p ∈ k.problems, p.isUnclosed = false := by
    intro k
    cases k <;> decide
  obtain ⟨i, t, p, rfl, -, hp⟩ := exists_of_mem_tokenFaults h
  exact hkind t.kind p hp

theorem isUnclosed_of_mem_ofUnclosed (h : f ∈ ofUnclosed opened) : f.problem.isUnclosed = true := by
  obtain ⟨o, -, rfl⟩ := List.mem_map.mp h
  exact o.opening.isUnclosed_unclosed

theorem pairwise_index?_ofUnclosed {n : Nat} (h : Stacked ts n opened) :
    ((ofUnclosed opened).filterMap index?).Pairwise (· < ·) := by
  have hindex : (ofUnclosed opened).filterMap index? = opened.reverse.map Open.index := by
    rw [ofUnclosed, List.filterMap_map, ← List.filterMap_eq_map]
    rfl
  rw [hindex, List.pairwise_map, List.pairwise_reverse]
  exact h.order

theorem pairwise_index?_tokenFaults :
    ((tokenFaults allowed index before opened ts).filterMap index?).Pairwise (· ≤ ·) := by
  refine List.pairwise_filterMap.mpr ((pairwise_tokenFaults _ _ _ _ _).imp ?_)
  intro f g h i hi j hj
  rcases h i hi j hj with hlt | ⟨heq, -⟩
  · exact Nat.le_of_lt hlt
  · exact Nat.le_of_eq heq

/-- Faults that precede one another differ in their token or in their problem. -/
theorem nodup_of_pairwise_precedes {fs : List Fault} (h : fs.Pairwise Precedes)
    (hplaced : ∀ f ∈ fs, PlacedIn ts f) : (fs.map fun f => (f.index?, f.problem)).Nodup := by
  refine List.pairwise_map.mpr (h.imp_of_mem fun {f g} hf _ hfg heq => ?_)
  obtain ⟨i, t, hplace, -⟩ := hplaced f hf
  have hi : f.index? = some i := by rw [index?, hplace]; rfl
  obtain ⟨hindex, hproblem⟩ := Prod.mk.inj heq
  rcases hfg i hi i (hindex.symm.trans hi) with hlt | ⟨-, hne⟩
  · exact Nat.lt_irrefl i hlt
  · exact hne hproblem

theorem nodup_faults (allowed : Option (List String)) (ts : List Token) :
    ((tokenFaults allowed 0 none [] ts ++ ofUnclosed (openAtEnd 0 none [] ts)).map
      fun f => (f.index?, f.problem)).Nodup := by
  have hunclosed : (ofUnclosed (openAtEnd 0 none [] ts)).Pairwise Precedes :=
    (List.pairwise_filterMap.mp (pairwise_index?_ofUnclosed (stacked_openAtEnd ts))).imp
      fun h i hi j hj => .inl (h i hi j hj)
  rw [List.map_append, List.nodup_append]
  refine ⟨nodup_of_pairwise_precedes (pairwise_tokenFaults _ _ _ _ _)
      fun f hf => placedIn_of_mem_tokenFaults hf,
    nodup_of_pairwise_precedes hunclosed fun f hf => placedIn_of_mem_ofUnclosed hf, ?_⟩
  -- A problem of something unclosed is none of a token.
  intro a ha b hb hab
  obtain ⟨f, hf, rfl⟩ := List.mem_map.mp ha
  obtain ⟨g, hg, rfl⟩ := List.mem_map.mp hb
  have hproblem := congrArg Problem.isUnclosed (Prod.mk.inj hab).2
  rw [isUnclosed_of_mem_tokenFaults hf, isUnclosed_of_mem_ofUnclosed hg] at hproblem
  exact Bool.false_ne_true hproblem

/-- **Order.** The faults of any token list, with any list of allowed names, are those of its tokens,
    in the order of the tokens, and behind them those of what is never closed, in the order of
    opening. Each of them has a token of the list at its number, and no token has the same
    problem twice. Every token that opens a pair which is not closed has one of the latter
    faults, and no other token has one. -/
theorem check_ordered (allowed : Option (List String)) (ts : List Token) :
    ∃ own unclosed : List Fault, check allowed ts = own ++ unclosed ∧
      (∀ f ∈ own, f.problem.isUnclosed = false) ∧ (own.filterMap index?).Pairwise (· ≤ ·) ∧
      (∀ f ∈ unclosed, f.problem.isUnclosed = true) ∧
      (unclosed.filterMap index?).Pairwise (· < ·) ∧
      (∀ f ∈ own ++ unclosed, PlacedIn ts f) ∧
      ((own ++ unclosed).map fun f => (f.index?, f.problem)).Nodup ∧
      ∀ f, f ∈ unclosed ↔ ∃ front t back p, ts = front ++ t :: back ∧
        Pair.opened? t.kind = some p ∧ ¬ClosedIn p back ∧
          f = atToken front.length t p.unclosed := by
  refine ⟨_, _, checkFrom_eq_append _ 0 none [] ts, fun f hf => isUnclosed_of_mem_tokenFaults hf,
    pairwise_index?_tokenFaults, fun f hf => isUnclosed_of_mem_ofUnclosed hf,
    pairwise_index?_ofUnclosed (stacked_openAtEnd ts), fun f hf => ?_, nodup_faults _ ts,
    mem_ofUnclosed_iff ts⟩
  rcases List.mem_append.mp hf with hf | hf
  · exact placedIn_of_mem_tokenFaults hf
  · exact placedIn_of_mem_ofUnclosed hf

/-- A brace in a bracket, which the wrong closing bracket does not close. -/
example : (check none [⟨.openBracket, "("⟩, ⟨.openBrace, "\x7b"⟩, ⟨.closeBracket, ")"⟩]).map
    (fun f => (f.index?, f.problem)) = [(some 2, .unexpectedBracket), (some 0, .unclosedBracket),
      (some 1, .unclosedReferenceBracket)] := by
  decide

end Fault

end Formulary
