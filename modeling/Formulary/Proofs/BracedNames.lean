/-
  Formulary.Proofs.BracedNames

  Which names can be referred to.

  Behind an opening brace the rules for quotes and numerals are tried before the rule for
  names. A name without braces is therefore read as a name exactly if it starts neither
  with a quote nor with a numeral (`Nameable`). Any other name is read as a literal or a
  number, the formula is faulty, and its value does not depend on the look-up
  (`braced_iff`).
-/

import Formulary.Proofs.Acceptance
import Formulary.Proofs.Joining
import Formulary.Proofs.LookUps
import Formulary.Proofs.Meaning

namespace Formulary

open Token (significant)

namespace Scan

/-! ## The token behind a brace -/

/-- A text that is read as a name behind an opening brace. -/
structure Nameable (cs : List Char) : Prop where
  quote (q : Quote) : cs.head? ≠ some q.mark
  numeral : ¬StartsNumeral cs

variable {c : Char} {cs : List Char} {m : Nat}

theorem openBrace_ne_opening : ∀ q : Quote, some Kind.openBrace ≠ some q.opening.kind :=
  ne_opening_of_not_mem (by decide)

/-- A name is read behind an opening brace only if it can be. -/
theorem Rule.nameable {last : Option Kind} (h : Rule last c cs .reference m) :
    Nameable (c :: cs) := by
  obtain ⟨hc, -, hplain⟩ := h.plain_inv (by decide)
  cases hplain with
  | name _ _ hstarts => exact ⟨fun q h => hc q (Option.some.inj h), hstarts⟩
  | mark hmark _ => simp [marks] at hmark

theorem Nameable.rule (h : Nameable (c :: cs)) (hc : inName c = true) :
    Rule (some .openBrace) c cs .reference (cs.takeWhile inName).length :=
  .plain (fun q hq => h.quote q (congrArg some hq)) openBrace_ne_opening (.name rfl hc h.numeral)

/-- An opening brace at the start of a formula. -/
theorem tokensAfter_leftBrace (cs : List Char) :
    tokensAfter none ('\x7b' :: cs) = .leftBrace :: tokensAfter (some .openBrace) cs :=
  tokensAfter_of_mark (k := .openBrace) fresh_none.ne_opening nofun (by decide) cs

/-- A closing brace behind a name. -/
theorem tokensAfter_rightBrace : tokensAfter (some .reference) ['\x7d'] = [.rightBrace] := by
  have hopen := ne_opening_of_not_mem (k := .reference) (by decide)
  have hmark := tokensAfter_of_mark (k := .closeBrace) (c := '\x7d') hopen nofun (by decide) []
  rwa [tokensAfter] at hmark

/-- The name between the braces is read as a whole. -/
theorem Nameable.rule_of_brace {v : List Char} (h : Nameable (c :: (cs ++ '\x7d' :: v)))
    (hcs : ∀ d ∈ c :: cs, inName d = true) :
    Rule (some .openBrace) c (cs ++ '\x7d' :: v) .reference cs.length := by
  have hbrace : Stops inName ('\x7d' :: v) := by
    rintro _ ⟨⟩
    rfl
  have hrule := h.rule (hcs c List.mem_cons_self)
  rwa [takeWhile_append_of_forall (fun d hd => hcs d (List.mem_cons_of_mem c hd)) hbrace] at hrule

theorem tokensAfter_name (h : Nameable (c :: (cs ++ ['\x7d'])))
    (hcs : ∀ d ∈ c :: cs, inName d = true) :
    tokensAfter (some .openBrace) (c :: (cs ++ ['\x7d'])) =
      [⟨.reference, String.ofList (c :: cs)⟩, .rightBrace] := by
  have hrule := h.rule_of_brace hcs
  rw [tokensAfter_cons hrule.lexeme_eq rfl, List.take_left, List.drop_left]
  exact congrArg (_ :: ·) tokensAfter_rightBrace

/-- Behind a text that is no name, the brace is not followed by a name. -/
theorem exists_token_of_not_nameable (h : ¬Nameable (c :: cs)) :
    ∃ t ts, tokensAfter (some .openBrace) (c :: cs) = t :: ts ∧ t.kind ≠ .reference := by
  have hkind : (lexeme (some .openBrace) c cs).1 ≠ .reference := by
    intro hk
    have hrule := rule_lexeme (some .openBrace) c cs
    rw [hk] at hrule
    exact h hrule.nameable
  have hadded : Step.added (some .openBrace) (firstToken (some .openBrace) c cs) =
      [firstToken (some .openBrace) c cs] := rfl
  rw [tokensAfter_eq_added, hadded]
  exact ⟨_, _, rfl, hkind⟩

/-! ## Names that a formula has only at its start -/

/-- Without a brace in it, a text behind an opening brace has no name but at its start. -/
theorem not_reference_of_head (hcs : '\x7b' ∉ cs) {t : Token} {ts : List Token}
    (h : tokensAfter (some .openBrace) cs = t :: ts) (ht : t.kind ≠ .reference) :
    ∀ u ∈ t :: ts, u.kind ≠ .reference := by
  intro u hu hk
  -- Every name stands directly behind a brace, and only the first token does.
  have hready : Ready [.leftBrace] (some .openBrace) cs :=
    ⟨fun q hq => absurd hq (openBrace_ne_opening q), nofun, fun _ => ⟨[], rfl⟩⟩
  obtain ⟨front, back, hts⟩ := List.append_of_mem hu
  have hplaced := allPlaced_tokensAfter hready front u back (h.trans hts)
  rw [Placed, hk] at hplaced
  obtain ⟨-, ⟨before, hbefore⟩, -⟩ := hplaced
  cases front with
  | nil =>
    obtain ⟨rfl, -⟩ := List.cons.inj hts
    exact ht hk
  | cons v front =>
    -- The brace in front of the name would be one of the text itself.
    have hlast : (v :: front).getLast? = some .leftBrace := by
      have hwhole := congrArg List.getLast? hbefore
      rwa [List.getLast?_concat, List.singleton_append, List.getLast?_cons_cons] at hwhole
    have hmem : Token.leftBrace ∈ t :: ts := by
      rw [hts]
      exact List.mem_append_left _ (List.mem_of_getLast? hlast)
    have htext : '\x7b' ∈ Token.leftBrace.text.toList := by decide
    have hchar := mem_toList_joined.mpr ⟨_, hmem, htext⟩
    rw [← h, joined_tokensAfter, String.toList_ofList] at hchar
    exact hcs hchar

/-- The rule for names does not look at the closing brace. -/
theorem nameable_append (h : cs ≠ []) : Nameable (cs ++ ['\x7d']) ↔ Nameable cs := by
  -- A brace adds nothing to a numeral, so it cannot make one of the name either.
  have hlength (x : List Char) : numeralLength (x ++ ['\x7d']) = numeralLength x := by
    have hle : numeralLength (x ++ []) ≤ x.length := by
      rw [List.append_nil]
      exact numeralLength_le x
    have hdigit : Stops Text.isDigit ['\x7d'] := by
      rintro _ ⟨⟩
      decide
    have hsame : numeralLength (x ++ ['\x7d']) = numeralLength (x ++ []) :=
      numeralLength_append hle hdigit (by simp)
    rwa [List.append_nil] at hsame
  obtain ⟨c, rest, rfl⟩ := List.exists_cons_of_ne_nil h
  have hstarts : StartsNumeral (c :: rest ++ ['\x7d']) ↔ StartsNumeral (c :: rest) := by
    have hwhole := hlength (c :: rest)
    have htail := hlength rest
    simp only [StartsNumeral, List.cons_append, List.head?_cons, List.tail_cons] at hwhole htail ⊢
    rw [hwhole, htail]
  exact ⟨fun h => ⟨h.quote, mt hstarts.mpr h.numeral⟩, fun h => ⟨h.quote, mt hstarts.mp h.numeral⟩⟩

/-! ## Braced names -/

theorem outsideQuotes_openBrace : OutsideQuotes (some .openBrace) := ⟨nofun, nofun, nofun⟩

/-- A name between braces. -/
def braced (n : String) : String := "\x7b" ++ n ++ "\x7d"

theorem tokenize_braced (n : String) :
    tokenize (braced n) = .leftBrace :: tokensAfter (some .openBrace) (n.toList ++ ['\x7d']) := by
  have htext : (braced n).toList = '\x7b' :: (n.toList ++ ['\x7d']) := by simp [braced]
  rw [tokenize, htext, tokensAfter_leftBrace]

variable {n : String}

theorem tokenize_of_nameable (hn : n ≠ "") (hbrace : ∀ d ∈ n.toList, inName d = true)
    (h : Nameable n.toList) :
    tokenize (braced n) = [.leftBrace, ⟨.reference, n⟩, .rightBrace] := by
  have hne : n.toList ≠ [] := fun h => hn (String.toList_eq_nil_iff.mp h)
  have hnameable := (nameable_append hne).mpr h
  obtain ⟨c, cs, hcs⟩ := List.exists_cons_of_ne_nil hne
  rw [hcs] at hnameable hbrace
  rw [tokenize_braced, hcs, List.cons_append, tokensAfter_name hnameable hbrace, ← hcs,
    String.ofList_toList]

/-- A text that is no name leaves the formula without a reference. -/
theorem not_reference_of_not_nameable (hn : n ≠ "") (hbrace : ∀ d ∈ n.toList, inName d = true)
    (h : ¬Nameable n.toList) : ∀ u ∈ tokenize (braced n), u.kind ≠ .reference := by
  have hne : n.toList ≠ [] := fun h => hn (String.toList_eq_nil_iff.mp h)
  have hnameable := mt (nameable_append hne).mp h
  have hmem : '\x7b' ∉ n.toList ++ ['\x7d'] := by
    intro hmem
    rcases List.mem_append.mp hmem with hmem | hmem
    · exact nomatch hbrace _ hmem
    · simp at hmem
  obtain ⟨c, cs, hcs⟩ := List.exists_cons_of_ne_nil hne
  rw [hcs, List.cons_append] at hnameable hmem
  obtain ⟨t, ts, htokens, ht⟩ := exists_token_of_not_nameable hnameable
  rw [tokenize_braced, hcs, List.cons_append, htokens]
  rintro u (_ | ⟨_, hu⟩)
  · exact nofun
  · exact not_reference_of_head hmem htokens ht u hu

/-- Such a formula is refused, whatever names are allowed. -/
theorem check_ne_nil_of_not_reference (allowed : Option (List String))
    (h : ∀ u ∈ tokenize (braced n), u.kind ≠ .reference) :
    Fault.check allowed (tokenize (braced n)) ≠ [] := by
  rw [Fault.check, ne_eq, checkFrom_eq_nil_iff, tokenize_braced]
  intro haccepts
  have hlexed := lexed_tokensAfter _ outsideQuotes_openBrace (n.toList ++ ['\x7d'])
  obtain ⟨m, us, hus, -⟩ := exists_reference hlexed haccepts
  refine h ⟨.reference, m⟩ ?_ rfl
  rw [tokenize_braced]
  exact List.mem_cons_of_mem _ (List.mem_of_mem_filter (hus ▸ List.mem_cons_self))

/-- Its value is the same for all look-ups. -/
theorem value_of_not_reference (h : ∀ u ∈ tokenize (braced n), u.kind ≠ .reference)
    (look other : String → String) :
    Expr.value look (Expr.ofFormula (braced n)) = Expr.value other (Expr.ofFormula (braced n)) := by
  have hnames : Token.referenceNames (tokenize (braced n)) = [] := by
    rw [Token.referenceNames, List.map_eq_nil_iff, List.filter_eq_nil_iff]
    exact fun u hu hk => h u hu (of_decide_eq_true hk)
  rw [Expr.value_ofFormula, Expr.value_ofFormula, hnames]
  rfl

theorem check_braced (allowed : Option (List String)) (n : String) :
    Fault.check allowed [.leftBrace, ⟨.reference, n⟩, .rightBrace] = [] ↔ AllowedName allowed n :=
  (Phrase.single none (.reference n)).check_eq_nil_iff rfl

theorem value_braced (h : tokenize (braced n) = [.leftBrace, ⟨.reference, n⟩, .rightBrace])
    (look : String → String) : Expr.value look (Expr.ofFormula (braced n)) = look n := by
  let e : Phrase := .single none (.reference n)
  have htokens : significant (tokenize (braced n)) = e.tokens false := by
    rw [h]
    rfl
  rw [Expr.ofFormula, e.ofTokens_bracketed htokens rfl]
  exact Phrase.value_grouped (e.values_trees look _ trivial) _

/-- **Names.** A text without braces can be referred to exactly if it starts neither with a quote
    nor with a numeral, with a minus sign or without. Such a text between braces is scanned as a
    name, found without fault, also where it is the only name that is allowed, and has the
    value of the name. None of this is true of any other text. -/
theorem braced_iff (n : String) (hn : n ≠ "") (hbrace : ∀ d ∈ n.toList, d ≠ '\x7b' ∧ d ≠ '\x7d') :
    (tokenize (braced n) = [.leftBrace, ⟨.reference, n⟩, .rightBrace] ↔ Nameable n.toList) ∧
    (Fault.check none (tokenize (braced n)) = [] ↔ Nameable n.toList) ∧
    (Fault.check (some [n]) (tokenize (braced n)) = [] ↔ Nameable n.toList) ∧
    ((∀ look, Expr.value look (Expr.ofFormula (braced n)) = look n) ↔ Nameable n.toList) := by
  have hname : ∀ d ∈ n.toList, inName d = true := fun d hd => by simpa [inName] using hbrace d hd
  by_cases h : Nameable n.toList
  · have htokens := tokenize_of_nameable hn hname h
    refine ⟨iff_of_true htokens h, iff_of_true ?_ h, iff_of_true ?_ h,
      iff_of_true (value_braced htokens) h⟩
    · rw [htokens, check_braced]
      rintro _ ⟨⟩
    · rw [htokens, check_braced]
      rintro _ ⟨⟩
      exact List.mem_singleton_self _
  · have hnone := not_reference_of_not_nameable hn hname h
    refine ⟨iff_of_false ?_ h, iff_of_false (check_ne_nil_of_not_reference none hnone) h,
      iff_of_false (check_ne_nil_of_not_reference (some [n]) hnone) h, iff_of_false ?_ h⟩
    · intro htokens
      exact hnone ⟨.reference, n⟩ (by simp [htokens]) rfl
    · -- No reference is left, so two look-ups that differ on the name give one value.
      intro hvalue
      have hsame := value_of_not_reference hnone (fun _ => "a") (fun _ => "b")
      rw [hvalue, hvalue] at hsame
      exact absurd hsame (by decide)

/-- A name with a sign at its start and a digit and a quote in it. -/
theorem braced_iff_signed :
    Nameable "-x 2'".toList ∧
    tokenize "\x7b-x 2'\x7d" = [.leftBrace, ⟨.reference, "-x 2'"⟩, .rightBrace] ∧
    Fault.check (some ["-x 2'"]) (tokenize "\x7b-x 2'\x7d") = [] ∧
    Expr.value (fun n => n ++ "!") (Expr.ofFormula "\x7b-x 2'\x7d") = "-x 2'!" := by
  have hnameable : Nameable "-x 2'".toList :=
    ⟨fun q => by cases q <;> decide, not_startsNumeral_cons.mpr (by decide)⟩
  obtain ⟨htokens, -, hcheck, hvalue⟩ := braced_iff "-x 2'" (by decide) (by simp)
  exact ⟨hnameable, htokens.mpr hnameable, hcheck.mpr hnameable, hvalue.mpr hnameable _⟩

/-- A number between braces is no name: it is scanned as a number and refused, and its value is not
    that of the name. -/
theorem braced_number :
    tokenize "\x7b12\x7d" = [.leftBrace, ⟨.number, "12"⟩, .rightBrace] ∧
    tokenize "\x7b12\x7d" ≠ [.leftBrace, ⟨.reference, "12"⟩, .rightBrace] ∧
    Fault.check none (tokenize "\x7b12\x7d") ≠ [] ∧
    Fault.check (some ["12"]) (tokenize "\x7b12\x7d") ≠ [] ∧
    Expr.value (fun _ => "x") (Expr.ofFormula "\x7b12\x7d") ≠ "x" := by
  have htokens : tokenize "\x7b12\x7d" = [.leftBrace, ⟨.number, "12"⟩, .rightBrace] := by
    decide +kernel
  have hvalue : Expr.value (fun _ => "x") (Expr.ofFormula "\x7b12\x7d") = "12" := by
    decide +kernel
  rw [htokens, hvalue]
  refine ⟨rfl, ?_, ?_, ?_, ?_⟩ <;> decide

end Scan

end Formulary
