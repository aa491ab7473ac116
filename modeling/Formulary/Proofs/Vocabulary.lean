/-
  Formulary.Proofs.Vocabulary

  The tables that stages behind the scan have of their own.

  The scan decides by its rules what an operator and what a number is. The groups of
  operators, the operators that can be computed and the texts that can be read as numbers are
  three more definitions. `tokenize_known` says that they have everything that any text is
  scanned into: an operator token is the symbol of an operator of the grammar, and a
  number token is a numeral (`IsNumeral`), which is never read as `nan`, as an infinity that
  is written as a word or as a numeral of another radix.
-/

import Formulary.Proofs.Splicing
import Formulary.Proofs.TreeNodes

namespace Formulary

open Text (isBlank isDigit)

/-! ## Numerals -/

/-- A run of digits. -/
def AllDigits (ds : List Char) : Prop := ∀ d ∈ ds, isDigit d = true

/-- A numeral without a sign: digits, or a point with digits behind it and perhaps in front of
    it. -/
inductive IsUnsigned : List Char → Prop where
  | whole {ds : List Char} : ds ≠ [] → AllDigits ds → IsUnsigned ds
  | places {ds fs : List Char} : AllDigits ds → fs ≠ [] → AllDigits fs →
    IsUnsigned (ds ++ '.' :: fs)

/-- A numeral, with a minus sign or without. -/
inductive IsNumeral : List Char → Prop where
  | unsigned {cs : List Char} : IsUnsigned cs → IsNumeral cs
  | negative {cs : List Char} : IsUnsigned cs → IsNumeral ('-' :: cs)

theorem allDigits_takeWhile (cs : List Char) : AllDigits (cs.takeWhile isDigit) :=
  fun _ hd => List.mem_takeWhile_imp hd

theorem stops_point (fs : List Char) : Stops isDigit ('.' :: fs) := by
  rintro _ ⟨⟩
  rfl

/-! ### What the scan takes for a numeral -/

/-- The places at the start of a text are a point and digits. -/
theorem take_pointLength {cs : List Char} (h : pointLength cs ≠ 0) :
    ∃ fs, cs.take (pointLength cs) = '.' :: fs ∧ fs ≠ [] ∧ AllDigits fs := by
  unfold pointLength at h ⊢
  split at h
  · next rest =>
    split at h
    · exact absurd rfl h
    · next hne =>
      refine ⟨rest.takeWhile isDigit, ?_, fun hnil => hne (congrArg List.length hnil),
        allDigits_takeWhile rest⟩
      rw [if_neg hne, Nat.add_comm, List.take_succ_cons, take_length_takeWhile]
  · exact absurd rfl h

/-- What the scan takes is a numeral. -/
theorem isUnsigned_take {cs : List Char} (h : 0 < numeralLength cs) :
    IsUnsigned (cs.take (numeralLength cs)) := by
  have htake : cs.take (numeralLength cs) = cs.takeWhile isDigit ++
      (cs.dropWhile isDigit).take (pointLength (cs.dropWhile isDigit)) := by
    rw [numeralLength_eq, List.take_add, take_length_takeWhile, drop_length_takeWhile]
  rw [htake]
  -- A point without digits behind it is not taken.
  by_cases hzero : pointLength (cs.dropWhile isDigit) = 0
  · rw [numeralLength_eq, hzero, Nat.add_zero] at h
    rw [hzero, List.take_zero, List.append_nil]
    exact .whole (List.ne_nil_of_length_pos h) (allDigits_takeWhile cs)
  · obtain ⟨fs, hfs, hne, hdigits⟩ := take_pointLength hzero
    rw [hfs]
    exact .places (allDigits_takeWhile cs) hne hdigits

/-- A numeral is taken as a whole. -/
theorem IsUnsigned.numeralLength_eq {cs : List Char} (h : IsUnsigned cs) :
    numeralLength cs = cs.length := by
  cases h with
  | whole _ hds =>
    rw [Formulary.numeralLength_eq, List.takeWhile_eq_self_iff.mpr hds,
      List.dropWhile_eq_nil_iff.mpr hds]
    rfl
  | @places ds fs hds hne hfs =>
    have hplaces : pointLength ('.' :: fs) = 1 + fs.length := by
      rw [pointLength, List.takeWhile_eq_self_iff.mpr hfs,
        if_neg fun h => hne (List.eq_nil_of_length_eq_zero h)]
    rw [Formulary.numeralLength_eq, takeWhile_append_of_forall hds (stops_point fs),
      dropWhile_append_of_forall hds (stops_point fs), hplaces, List.length_append,
      List.length_cons, Nat.add_comm 1]

theorem IsUnsigned.numeralLength_append {cs v : List Char} (h : IsUnsigned cs)
    (hv : Detached [] v) : numeralLength (cs ++ v) = cs.length := by
  have hwhole : numeralLength (cs ++ []) = cs.length := by rw [List.append_nil, h.numeralLength_eq]
  rw [hv.numeralLength_append hwhole.le, hwhole]

/-! ### What is read as a number -/

theorem IsUnsigned.mem {cs : List Char} (h : IsUnsigned cs) :
    ∀ d ∈ cs, isDigit d = true ∨ d = '.' := by
  intro d hd
  cases h with
  | whole _ hds => exact .inl (hds d hd)
  | places hds _ hfs =>
    rcases List.mem_append.mp hd with hd | hd
    · exact .inl (hds d hd)
    · rcases List.mem_cons.mp hd with rfl | hd
      · exact .inr rfl
      · exact .inl (hfs d hd)

theorem IsUnsigned.ne_nil {cs : List Char} (h : IsUnsigned cs) : cs ≠ [] := by
  cases h with
  | whole hne _ => exact hne
  | places _ _ _ => simp

theorem IsNumeral.ne_nil {cs : List Char} (h : IsNumeral cs) : cs ≠ [] := by
  cases h with
  | unsigned h => exact h.ne_nil
  | negative _ => exact List.cons_ne_nil _ _

/-- The characters of numerals. -/
theorem IsNumeral.mem {cs : List Char} (h : IsNumeral cs) :
    ∀ d ∈ cs, isDigit d = true ∨ d = '.' ∨ d = '-' := by
  intro d hd
  cases h with
  | unsigned h => exact (h.mem d hd).imp_right .inl
  | negative h =>
    rcases List.mem_cons.mp hd with rfl | hd
    · exact .inr (.inr rfl)
    · exact (h.mem d hd).imp_right .inl

/-- No other character is part of a numeral. -/
theorem IsNumeral.not_mem {cs : List Char} (h : IsNumeral cs) {d : Char}
    (hd : (isDigit d || d == '.' || d == '-') = false) : d ∉ cs := by
  intro hmem
  simp only [Bool.or_eq_false_iff, beq_eq_false_iff_ne] at hd
  rcases h.mem d hmem with hdigit | hpoint | hminus
  · exact Bool.false_ne_true (hd.1.1.symm.trans hdigit)
  · exact hd.1.2 hpoint
  · exact hd.2 hminus

theorem IsNumeral.isBlank_of_mem {cs : List Char} (h : IsNumeral cs) :
    ∀ d ∈ cs, isBlank d = false := by
  intro d hd
  rcases h.mem d hd with hdigit | rfl | rfl
  · exact Bool.eq_false_iff.mpr fun hb =>
      Bool.false_ne_true ((Text.isDigit_of_isBlank hb).symm.trans hdigit)
  · rfl
  · rfl

namespace Text

theorem dropWhile_isBlank {cs : List Char} (h : ∀ d ∈ cs, isBlank d = false) :
    cs.dropWhile isBlank = cs := by
  cases cs with
  | nil => rfl
  | cons c cs => exact List.dropWhile_cons_of_neg (by simp [h c List.mem_cons_self])

theorem trim_eq_self {cs : List Char} (h : ∀ d ∈ cs, isBlank d = false) : trim cs = cs := by
  have hreverse : ∀ d ∈ cs.reverse, isBlank d = false := fun d hd => h d (List.mem_reverse.mp hd)
  rw [trim, dropWhile_isBlank h, dropWhile_isBlank hreverse, List.reverse_reverse]

end Text

/-- A fraction is never rounded to `nan`. -/
theorem Binary64.ofRatio_ne_nan (negative : Bool) (num den : Nat) :
    ofRatio negative num den ≠ nan := by
  rw [ofRatio]
  split
  · exact Binary64.noConfusion
  · exact Binary64.noConfusion

theorem Binary64.ofUnits_ne_nan (negative : Bool) (u : Nat) : ofUnits negative u ≠ nan :=
  ofRatio_ne_nan negative u 1

namespace Decimal

theorem takeSign_of_isUnsigned {cs : List Char} (h : IsUnsigned cs) :
    takeSign cs = (false, cs) := by
  have hsign {d : Char} (hd : isDigit d = false) (hpoint : d ≠ '.') : d ∉ cs := by
    intro hmem
    rcases h.mem d hmem with hdigit | hdigit
    · exact Bool.false_ne_true (hd.symm.trans hdigit)
    · exact hpoint hdigit
  unfold takeSign
  split
  · exact absurd List.mem_cons_self (hsign rfl (by decide))
  · exact absurd List.mem_cons_self (hsign rfl (by decide))
  · rfl

/-- A numeral behind a sign, or without one. -/
theorem isSome_numeral?_of_takeSign {cs rest : List Char} {negative : Bool}
    (hsign : takeSign cs = (negative, rest)) (h : IsUnsigned rest) :
    (numeral? cs).isSome = true := by
  cases h with
  | whole hne hds =>
    have hrun : rest.takeWhile isDigit = rest := List.takeWhile_eq_self_iff.mpr hds
    have hrest : rest.dropWhile isDigit = [] := List.dropWhile_eq_nil_iff.mpr hds
    simp [numeral?, hsign, hrun, hrest, takePlaces, exponent?, hne]
  | @places ds fs hds hne hfs =>
    have hrun := takeWhile_append_of_forall hds (stops_point fs)
    have hrest := dropWhile_append_of_forall hds (stops_point fs)
    have hplaces : fs.takeWhile isDigit = fs := List.takeWhile_eq_self_iff.mpr hfs
    have hnil : fs.dropWhile isDigit = [] := List.dropWhile_eq_nil_iff.mpr hfs
    simp [numeral?, hsign, hrun, hrest, takePlaces, hplaces, hnil, exponent?, hne]

theorem isSome_numeral? {cs : List Char} (h : IsNumeral cs) : (numeral? cs).isSome = true := by
  cases h with
  | unsigned h => exact isSome_numeral?_of_takeSign (takeSign_of_isUnsigned h) h
  | negative h => exact isSome_numeral?_of_takeSign rfl h

/-- No numeral starts like one of another radix. -/
theorem radixParts?_eq_none {cs : List Char} (h : IsNumeral cs) : radixParts? cs = none := by
  unfold radixParts?
  split
  · next c d rest =>
    -- The letter that stands for a radix is no part of a numeral.
    have hmem : c ∈ '0' :: c :: d :: rest := by simp
    rw [Option.map_eq_none_iff]
    unfold radix?
    split <;> first | exact absurd hmem (h.not_mem rfl) | rfl
  · rfl

/-- A numeral is not one of the words for infinity. -/
theorem ne_of_capital {cs word : List Char} (h : IsNumeral cs) (hword : 'I' ∈ word) :
    cs ≠ word := by
  rintro rfl
  exact h.not_mem rfl hword

theorem nearest_ne_nan (negative : Bool) (digits : Nat) (exponent : Int) :
    nearest negative digits exponent ≠ .nan := by
  rw [nearest]
  split_ifs
  · exact Binary64.ofUnits_ne_nan negative 0
  · exact nofun
  · exact Binary64.ofUnits_ne_nan negative 0
  · exact Binary64.ofUnits_ne_nan negative _
  · exact Binary64.ofRatio_ne_nan negative _ _

/-- A numeral is read as the number nearest to the fraction that it writes down. -/
theorem read_of_isNumeral {s : String} (h : IsNumeral s.toList) :
    ∃ n : Numeral, numeral? s.toList = some n ∧
      read s = nearest n.negative n.digits n.exponent := by
  obtain ⟨n, hn⟩ := Option.isSome_iff_exists.mp (isSome_numeral? h)
  have hword : s.toList ≠ "Infinity".toList := ne_of_capital h (by decide)
  have hplus : s.toList ≠ "+Infinity".toList := ne_of_capital h (by decide)
  have hminus : s.toList ≠ "-Infinity".toList := ne_of_capital h (by decide)
  refine ⟨n, hn, ?_⟩
  rw [read, Text.trim_eq_self h.isBlank_of_mem, readTrimmed, if_neg h.ne_nil, decide_eq_false hword,
    decide_eq_false hplus, if_neg (by decide), if_neg hminus, radixParts?_eq_none h, hn]

end Decimal

namespace Scan

/-! ## Tokens -/

variable {last : Option Kind} {c : Char} {cs : List Char} {k : Kind} {m : Nat}

/-- A number is read only where a numeral stands. -/
theorem Rule.number_inv (h : Rule last c cs k m) (hk : k = .number) :
    IsNumeral (c :: cs.take m) := by
  subst hk
  obtain ⟨-, -, hplain⟩ := h.plain_inv (by decide)
  cases hplain with
  | negative hc hpos _ =>
    subst hc
    exact .negative (isUnsigned_take hpos)
  | numeral hpos =>
    have htake := isUnsigned_take hpos
    rw [← Nat.sub_add_cancel hpos, List.take_succ_cons] at htake
    exact .unsigned htake
  | mark hmark _ => simp [marks] at hmark

/-- An operator is read only where the symbol of one stands. -/
theorem Rule.operator_inv (h : Rule last c cs k m) (hk : k = .operator) :
    ∃ o : Operator, o.symbol = String.ofList (c :: cs.take m) := by
  subst hk
  obtain ⟨-, -, hplain⟩ := h.plain_inv (by decide)
  have hreading := plainReading_plainLexeme last c cs
  rw [PlainReading, hplain.plainLexeme_eq] at hreading
  generalize ht : (⟨.operator, String.ofList (c :: cs.take m)⟩ : Token) = t at hreading
  cases hreading with
  | operator o _ => exact ⟨o, congrArg Token.text ht.symm⟩
  | _ => exact nomatch congrArg Token.kind ht

/-- **Vocabulary.** Every operator token of a formula, whatever stands around it, has a group of
    precedence and can be computed. Every number token is a numeral, and it is read as the
    number nearest to the fraction that it writes down, which is not `nan`. -/
theorem tokenize_known (formula : String) (t : Token) (h : t ∈ tokenize formula) :
    (t.kind = .operator →
      (Precedence.ofSymbol? t.text).isSome = true ∧ (operator? t.text).isSome = true) ∧
    (t.kind = .number → IsNumeral t.text.toList ∧ Decimal.read t.text ≠ .nan ∧
      ∃ n : Decimal.Numeral, Decimal.numeral? t.text.toList = some n ∧
        Decimal.read t.text = Decimal.nearest n.negative n.digits n.exponent) := by
  -- A token is what a rule reads somewhere in the text, save for the content of an empty literal.
  have hfirst (hk : t.kind ≠ .quoted) : ∃ last c rest, t = firstToken last c rest :=
    exists_firstToken_of_mem h fun hempty => hk (congrArg Token.kind hempty)
  constructor
  · intro hk
    obtain ⟨last, c, rest, rfl⟩ := hfirst (by rw [hk]; decide)
    obtain ⟨o, ho⟩ := (rule_lexeme last c rest).operator_inv hk
    rw [firstToken, ← ho, o.ofSymbol?_symbol]
    exact ⟨rfl, Expr.isSome_operator?_symbol o⟩
  · intro hk
    obtain ⟨last, c, rest, rfl⟩ := hfirst (by rw [hk]; decide)
    have hnumeral : IsNumeral (firstToken last c rest).text.toList := by
      rw [firstToken, String.toList_ofList]
      exact (rule_lexeme last c rest).number_inv hk
    obtain ⟨n, hn, hread⟩ := Decimal.read_of_isNumeral hnumeral
    refine ⟨hnumeral, ?_, n, hn, hread⟩
    rw [hread]
    exact Decimal.nearest_ne_nan _ _ _

/-- A comparison of two characters and a negative number without a whole part, between characters
    that are no part of a formula. -/
theorem tokenize_known_unknown :
    ⟨.operator, "<="⟩ ∈ tokenize "x<=-.5e" ∧ ⟨.number, "-.5"⟩ ∈ tokenize "x<=-.5e" ∧
    (Precedence.ofSymbol? "<=").isSome = true ∧ (operator? "<=").isSome = true ∧
    IsNumeral "-.5".toList ∧ Decimal.read "-.5" ≠ .nan := by
  have hoperator : ⟨.operator, "<="⟩ ∈ tokenize "x<=-.5e" := by decide +kernel
  have hnumber : ⟨.number, "-.5"⟩ ∈ tokenize "x<=-.5e" := by decide +kernel
  obtain ⟨hgroup, hknown⟩ := (tokenize_known _ _ hoperator).1 rfl
  obtain ⟨hnumeral, hread, -⟩ := (tokenize_known _ _ hnumber).2 rfl
  exact ⟨hoperator, hnumber, hgroup, hknown, hnumeral, hread⟩

end Scan

end Formulary
