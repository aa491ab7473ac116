/-
  Formulary.Proofs.Numerals

  Decimal numerals as texts.

  `IsDecimal negative cs digits places` says that a text is a decimal without an exponent: the
  number `digits` with a point in front of its last `places` digits. It is read as the number
  nearest to `digits / 10^places` (`read_of_isDecimal`). What `printFixed` writes is such a text
  (`isDecimal_withPlaces`), and it stays one, of the same number, without the zeros at its end
  (`exists_isDecimal_dropPlaces`).
-/

import Formulary.Decimal.Fixed
import Formulary.Proofs.Rounding
import Formulary.Proofs.Vocabulary

namespace Formulary

open Text (isBlank isDigit)

theorem Text.isBlank_of_isDigit {c : Char} (h : isDigit c = true) : isBlank c = false :=
  Bool.eq_false_iff.mpr fun hb => Bool.false_ne_true ((isDigit_of_isBlank hb).symm.trans h)

namespace Decimal

open Binary64 (ofRat)

theorem isDigit_of_mem_toDigits {n : Nat} {d : Char} (h : d ∈ Nat.toDigits 10 n) :
    isDigit d = true := by
  have hdigit := Nat.isDigit_of_mem_toDigits (by decide) le_rfl h
  rw [Char.isDigit, Bool.and_eq_true, decide_eq_true_eq, decide_eq_true_eq] at hdigit
  rw [isDigit, Bool.and_eq_true, decide_eq_true_eq, decide_eq_true_eq]
  exact hdigit

theorem allDigits_toDigits (n : Nat) : AllDigits (Nat.toDigits 10 n) :=
  fun _ => isDigit_of_mem_toDigits

theorem allDigits_zeros (k : Nat) : AllDigits (List.replicate k '0') := by
  intro d hd
  rw [(List.mem_replicate.mp hd).2]
  rfl

theorem digitsValue_toDigits (n : Nat) : digitsValue (Nat.toDigits 10 n) = n :=
  Nat.ofDigitChars_ten_toDigits

theorem digitsValue_append (ws fs : List Char) :
    digitsValue (ws ++ fs) = digitsValue ws * 10 ^ fs.length + digitsValue fs := by
  rw [digitsValue, Nat.ofDigitChars_append, Nat.ofDigitChars_eq_ofDigitChars_zero, Nat.mul_comm]
  rfl

theorem digitsValue_append_zeros (ws : List Char) (j : Nat) :
    digitsValue (ws ++ List.replicate j '0') = digitsValue ws * 10 ^ j := by
  rw [digitsValue, Nat.ofDigitChars_append, Nat.ofDigitChars_replicate_zero, Nat.mul_comm]
  rfl

/-- Zeros in front of digits do not count. -/
theorem digitsValue_zeros_append (k : Nat) (ds : List Char) :
    digitsValue (List.replicate k '0' ++ ds) = digitsValue ds := by
  have hzeros : digitsValue (List.replicate k '0') = 0 :=
    Nat.ofDigitChars_replicate_zero.trans (Nat.mul_zero _)
  rw [digitsValue_append, hzeros, Nat.zero_mul, Nat.zero_add]

/-! ## What a numeral is read as -/

/-- No numeral starts like one of another radix. -/
theorem radixParts?_of_numeral? {cs : List Char} {n : Numeral} (h : numeral? cs = some n) :
    radixParts? cs = none := by
  unfold radixParts?
  split
  · next c d rest =>
    rw [Option.map_eq_none_iff]
    unfold radix?
    -- The letter that stands for a radix does not start an exponent.
    split <;> first | rfl | exact nomatch h
  · rfl

/-- **Reading.** A numeral is read as the number nearest to the one that it writes down. -/
theorem read_of_numeral? {s : String} {n : Numeral} (h : numeral? (Text.trim s.toList) = some n) :
    read s = ofRat n.negative (unitsOf n.digits n.exponent) := by
  have hne {word : List Char} (hword : numeral? word = none) : Text.trim s.toList ≠ word := by
    rintro rfl
    rw [hword] at h
    exact nomatch h
  have hword := hne (by decide : numeral? "Infinity".toList = none)
  have hplus := hne (by decide : numeral? "+Infinity".toList = none)
  have hminus := hne (by decide : numeral? "-Infinity".toList = none)
  rw [read, readTrimmed, if_neg (hne (by decide : numeral? [] = none)),
    decide_eq_false hword, decide_eq_false hplus, if_neg (by decide), if_neg hminus,
    radixParts?_of_numeral? h, h]
  exact nearest_eq_ofRat _ _ _

/-- A numeral without places is read as the whole number itself. -/
theorem read_of_whole {s : String} {n : Nat}
    (h : numeral? (Text.trim s.toList) = some ⟨false, n, 0⟩) : read s = .ofNat n := by
  have hunits : unitsOf n 0 = (n * Nat.pow 2 Binary64.unitBits : Nat) := by
    rw [unitsOf, zpow_zero, mul_one, Nat.cast_mul, Nat.pow_eq, Nat.cast_pow, Nat.cast_ofNat]
  rw [read_of_numeral? h, hunits, Binary64.ofNat, Binary64.ofUnits_eq_ofRat]

/-- The parts of a numeral: a sign, digits, perhaps a point and digits, perhaps an exponent. -/
theorem numeral?_of_parts {cs ws rest fs tail : List Char} {negative : Bool} {e : Int}
    (hsign : takeSign cs = (negative, ws ++ rest)) (hws : AllDigits ws) (hrest : Stops isDigit rest)
    (hplaces : takePlaces rest = (fs, tail)) (hne : ws ++ fs ≠ []) (he : exponent? tail = some e) :
    numeral? cs = some ⟨negative, digitsValue (ws ++ fs), e - fs.length⟩ := by
  have hempty : (ws.isEmpty && fs.isEmpty) = false := by
    simpa [Bool.and_eq_false_iff, imp_iff_not_or] using hne
  simp only [numeral?, hsign, takeWhile_append_of_forall hws hrest,
    dropWhile_append_of_forall hws hrest, hplaces, hempty, he, Bool.false_eq_true, if_false,
    Option.map_some]

theorem takePlaces_point {fs tail : List Char} (hfs : AllDigits fs) (htail : Stops isDigit tail) :
    takePlaces ('.' :: (fs ++ tail)) = (fs, tail) := by
  rw [takePlaces, takeWhile_append_of_forall hfs htail, dropWhile_append_of_forall hfs htail]

/-! ## Decimals -/

/-- A text with a minus sign in front, if it is to have one. -/
def withSign (negative : Bool) (cs : List Char) : List Char :=
  (if negative then ['-'] else []) ++ cs

theorem takeSign_withSign {cs : List Char} (h : ∀ d ∈ cs.head?, isDigit d = true ∨ d = '.')
    (negative : Bool) : takeSign (withSign negative cs) = (negative, cs) := by
  cases negative with
  | true => rfl
  | false =>
    rw [withSign, if_neg Bool.false_ne_true, List.nil_append]
    unfold takeSign
    split
    · exact absurd (h _ rfl) (by decide)
    · exact absurd (h _ rfl) (by decide)
    · rfl

/-- What is printed for a number that is finite and not zero. -/
theorem toList_print (negative : Bool) {u : Nat} (hu : Representable u) (hne : u ≠ 0) :
    (print (.finite negative u hu)).toList =
      withSign negative (layout (shortest u).1 (shortest u).2) := by
  simp only [print, if_neg hne, String.toList_ofList]
  rfl

/-- The text writes down `digits / 10^places`: all digits, with a point in front of the last
    `places` of them. Without places the point may be there or not. -/
inductive IsDecimal (negative : Bool) : List Char → Nat → Nat → Prop where
  | whole {ws : List Char} (hws : AllDigits ws) (hne : ws ≠ []) :
    IsDecimal negative (withSign negative ws) (digitsValue ws) 0
  | point {ws fs : List Char} (hws : AllDigits ws) (hfs : AllDigits fs) (hne : ws ++ fs ≠ []) :
    IsDecimal negative (withSign negative (ws ++ '.' :: fs)) (digitsValue (ws ++ fs)) fs.length

variable {negative : Bool} {cs : List Char} {digits places : Nat}

theorem mem_withSign {d : Char} (h : d ∈ withSign negative cs) : d = '-' ∨ d ∈ cs := by
  rw [withSign] at h
  split at h
  · exact List.mem_cons.mp h
  · exact .inr h

/-- The characters of decimals. -/
theorem IsDecimal.mem (h : IsDecimal negative cs digits places) {d : Char} (hd : d ∈ cs) :
    isDigit d = true ∨ d = '.' ∨ d = '-' := by
  cases h with
  | whole hws _ =>
    rcases mem_withSign hd with rfl | hd
    · exact .inr (.inr rfl)
    · exact .inl (hws d hd)
  | point hws hfs _ =>
    rcases mem_withSign hd with rfl | hd
    · exact .inr (.inr rfl)
    · rcases List.mem_append.mp hd with hd | hd
      · exact .inl (hws d hd)
      · rcases List.mem_cons.mp hd with rfl | hd
        · exact .inr (.inl rfl)
        · exact .inl (hfs d hd)

theorem IsDecimal.not_mem_e (h : IsDecimal negative cs digits places) : 'e' ∉ cs := by
  intro hmem
  rcases h.mem hmem with hdigit | hmark | hmark
  · exact absurd hdigit (by decide)
  · exact absurd hmark (by decide)
  · exact absurd hmark (by decide)

/-- There is no blank among the characters of a numeral. -/
theorem trim_eq_of_numeral {cs : List Char}
    (h : ∀ d ∈ cs, isDigit d = true ∨ d ∈ ['.', '-', '+', 'e']) : Text.trim cs = cs := by
  refine Text.trim_eq_self fun d hd => ?_
  rcases h d hd with hdigit | hmark
  · exact Text.isBlank_of_isDigit hdigit
  · simp only [List.mem_cons, List.not_mem_nil, or_false] at hmark
    rcases hmark with rfl | rfl | rfl | rfl <;> rfl

theorem IsDecimal.trim_eq (h : IsDecimal negative cs digits places) : Text.trim cs = cs := by
  refine trim_eq_of_numeral fun d hd => ?_
  rcases h.mem hd with hdigit | rfl | rfl
  · exact .inl hdigit
  · exact .inr (by decide)
  · exact .inr (by decide)

theorem head?_digits {ws : List Char} (hws : AllDigits ws) (hne : ws ≠ []) (rest : List Char) :
    ∀ d ∈ (ws ++ rest).head?, isDigit d = true ∨ d = '.' := by
  obtain ⟨w, ws, rfl⟩ := List.exists_cons_of_ne_nil hne
  rintro d ⟨⟩
  exact .inl (hws _ List.mem_cons_self)

theorem IsDecimal.numeral?_eq (h : IsDecimal negative cs digits places) :
    numeral? cs = some ⟨negative, digits, -(places : Int)⟩ := by
  cases h with
  | @whole ws hws hne =>
    have hhead := head?_digits hws hne []
    rw [← List.append_nil ws] at hne
    have hplaces : takePlaces [] = ([], []) := rfl
    have hexponent : exponent? [] = some 0 := rfl
    have hsign := takeSign_withSign hhead negative
    have hparts := numeral?_of_parts hsign hws (by rintro _ ⟨⟩) hplaces hne hexponent
    rwa [List.append_nil] at hparts
  | @point ws fs hws hfs hne =>
    have hhead : ∀ d ∈ (ws ++ '.' :: fs).head?, isDigit d = true ∨ d = '.' := by
      rcases ws with _ | ⟨w, ws⟩
      · rintro d ⟨⟩
        exact .inr rfl
      · exact head?_digits hws (List.cons_ne_nil w ws) _
    have hend : Stops isDigit [] := by rintro _ ⟨⟩
    have hplaces := takePlaces_point hfs hend
    have hexponent : exponent? [] = some 0 := rfl
    rw [List.append_nil] at hplaces
    have hparts := numeral?_of_parts (takeSign_withSign hhead negative) hws (stops_point fs) hplaces
      hne hexponent
    rwa [zero_sub] at hparts

/-- A decimal is read as the number nearest to it. -/
theorem read_of_isDecimal {s : String} (h : IsDecimal negative s.toList digits places) :
    read s = ofRat negative (unitsOf digits (-places)) := by
  have hnumeral := h.numeral?_eq
  rw [← h.trim_eq] at hnumeral
  rw [read_of_numeral? hnumeral]

/-! ## Exponents -/

/-- The exponent that is written behind a decimal. -/
theorem exponent?_written (e : Int) :
    exponent? ('e' :: (if 0 ≤ e then '+' else '-') :: Nat.toDigits 10 e.natAbs) = some e := by
  have hempty : (Nat.toDigits 10 e.natAbs).isEmpty = false :=
    List.isEmpty_eq_false_iff.mpr Nat.toDigits_ne_nil
  have hall : (Nat.toDigits 10 e.natAbs).all isDigit = true :=
    List.all_eq_true.mpr (allDigits_toDigits _)
  have hvalue := digitsValue_toDigits e.natAbs
  by_cases hpos : 0 ≤ e
  · simp [exponent?, takeSign, hempty, hall, hvalue, hpos]
  · have habs : -(e.natAbs : Int) = e := by omega
    rw [if_neg hpos]
    simp only [exponent?, takeSign, hempty, hall, hvalue, habs]
    rfl

/-- A decimal with a power of ten behind it. -/
def withExponent (ws fs : List Char) (exponent : Nat) : List Char :=
  ws ++ '.' :: (fs ++ 'e' :: '+' :: Nat.toDigits 10 exponent)

/-- A decimal with a power of ten is read as the number nearest to it. -/
theorem read_of_withExponent {s : String} {ws fs : List Char} {exponent : Nat}
    (hws : AllDigits ws) (hne : ws ≠ []) (hfs : AllDigits fs)
    (hs : s.toList = withSign negative (withExponent ws fs exponent)) :
    read s = ofRat negative (unitsOf (digitsValue (ws ++ fs)) (exponent - fs.length)) := by
  have hdigits := allDigits_toDigits exponent
  have htail : exponent? ('e' :: '+' :: Nat.toDigits 10 exponent) = some (exponent : Int) :=
    exponent?_written exponent
  have hend : Stops isDigit ('e' :: '+' :: Nat.toDigits 10 exponent) := by
    rintro _ ⟨⟩
    rfl
  have hplaces := takePlaces_point hfs hend
  have hnumeral := numeral?_of_parts (takeSign_withSign (head?_digits hws hne _) negative) hws
    (stops_point _) hplaces (List.append_ne_nil_of_left_ne_nil hne fs) htail
  -- No character of the text is a blank.
  have htrim : Text.trim s.toList = s.toList := by
    refine trim_eq_of_numeral fun d hd => ?_
    rw [hs] at hd
    rcases mem_withSign hd with rfl | hd
    · exact .inr (by decide)
    · simp only [withExponent, List.mem_append, List.mem_cons] at hd
      rcases hd with hd | rfl | hd | rfl | rfl | hd
      · exact .inl (hws d hd)
      · exact .inr (by decide)
      · exact .inl (hfs d hd)
      · exact .inr (by decide)
      · exact .inr (by decide)
      · exact .inl (hdigits d hd)
  rw [← withExponent, ← hs, ← htrim] at hnumeral
  rw [read_of_numeral? hnumeral]

/-! ## Characters taken from the end -/

theorem dropEnd_eq (c : Char) (cs : List Char) : dropEnd c cs = cs.rdropWhile (· == c) := rfl

theorem dropEnd_concat_self (c : Char) (cs : List Char) : dropEnd c (cs ++ [c]) = dropEnd c cs := by
  rw [dropEnd_eq, dropEnd_eq]
  exact List.rdropWhile_concat_pos _ cs c (beq_self_eq_true c)

/-- What ends in another character stays. -/
theorem dropEnd_concat {c d : Char} (hd : d ≠ c) (cs : List Char) :
    dropEnd c (cs ++ [d]) = cs ++ [d] := by
  rw [dropEnd_eq]
  exact List.rdropWhile_concat_neg _ cs d (by simpa using hd)

/-- Another character stops it. -/
theorem dropEnd_append_cons {c d : Char} (hd : d ≠ c) (cs ds : List Char) :
    dropEnd c (cs ++ d :: ds) = cs ++ d :: dropEnd c ds := by
  induction ds using List.reverseRecOn with
  | nil => exact dropEnd_concat hd cs
  | append_singleton ds e ih =>
    rw [← List.cons_append, ← List.append_assoc]
    by_cases he : e = c
    · rw [he, dropEnd_concat_self, dropEnd_concat_self, ih]
    · rw [dropEnd_concat he, dropEnd_concat he, List.append_assoc, List.cons_append]

/-- What is taken from the end are copies of the character. -/
theorem exists_append_replicate (c : Char) (cs : List Char) :
    ∃ j, cs = dropEnd c cs ++ List.replicate j c := by
  induction cs using List.reverseRecOn with
  | nil => exact ⟨0, rfl⟩
  | append_singleton cs d ih =>
    by_cases hd : d = c
    · obtain ⟨j, hj⟩ := ih
      refine ⟨j + 1, ?_⟩
      rw [hd, dropEnd_concat_self, List.replicate_succ', ← List.append_assoc, ← hj]
    · exact ⟨0, by rw [dropEnd_concat hd, List.replicate_zero, List.append_nil]⟩

/-- Digits stay where no digit is taken. -/
theorem dropEnd_of_allDigits {c : Char} (hc : isDigit c = false) {ds : List Char}
    (hds : AllDigits ds) (hne : ds ≠ []) (cs : List Char) : dropEnd c (cs ++ ds) = cs ++ ds := by
  rcases List.eq_nil_or_concat ds with hnil | ⟨ds, d, rfl⟩
  · exact absurd hnil hne
  · rw [List.concat_eq_append, ← List.append_assoc]
    refine dropEnd_concat ?_ _
    rintro rfl
    exact Bool.false_ne_true (hc.symm.trans (hds d (by simp)))

theorem dropEnd_withSign {c : Char} (hc : c ≠ '-') (negative : Bool) (cs : List Char) :
    dropEnd c (withSign negative cs) = withSign negative (dropEnd c cs) := by
  cases negative with
  | true => exact dropEnd_append_cons hc.symm [] cs
  | false => rfl

/-! ## Fixed places -/

/-- The digits of a number with a point before the last `places` of them. -/
structure Placed (n places : Nat) (ws fs : List Char) : Prop where
  whole : AllDigits ws
  behind : AllDigits fs
  ne_nil : ws ≠ []
  length : fs.length = places
  value : digitsValue (ws ++ fs) = n

/-- Digits can be cut anywhere behind the first one. -/
theorem placed_of_allDigits {places : Nat} {ds : List Char} (hds : AllDigits ds)
    (hlength : places < ds.length) :
    Placed (digitsValue ds) places (ds.take (ds.length - places))
      (ds.drop (ds.length - places)) where
  whole := fun d hd => hds d (List.mem_of_mem_take hd)
  behind := fun d hd => hds d (List.mem_of_mem_drop hd)
  ne_nil := by
    refine List.ne_nil_of_length_pos ?_
    rw [List.length_take]
    omega
  length := by
    rw [List.length_drop]
    omega
  value := by rw [List.take_append_drop]

/-- What is written with places are these digits, and the point if there are places. -/
theorem exists_withPlaces (n places : Nat) :
    ∃ ws fs, Placed n places ws fs ∧
      withPlaces n places = if places = 0 then ws else ws ++ '.' :: fs := by
  set padded := List.replicate (places + 1 - (Nat.toDigits 10 n).length) '0' ++ Nat.toDigits 10 n
    with hpadded
  -- The zeros leave at least one digit in front of the point.
  have hlength : places < padded.length := by
    rw [hpadded, List.length_append, List.length_replicate]
    omega
  have hdigits : AllDigits padded := by
    intro d hd
    rcases List.mem_append.mp hd with hd | hd
    · exact allDigits_zeros _ d hd
    · exact allDigits_toDigits n d hd
  have hvalue : digitsValue padded = n := by
    rw [hpadded, digitsValue_zeros_append, digitsValue_toDigits]
  have hplaced := placed_of_allDigits hdigits hlength
  rw [hvalue] at hplaced
  exact ⟨_, _, hplaced, rfl⟩

section Placed

variable {n places : Nat} {ws fs : List Char}

/-- With the point, or without it where it would end them, such digits are the decimal. -/
theorem Placed.isDecimal (h : Placed n places ws fs) (negative : Bool) :
    IsDecimal negative (withSign negative (if places = 0 then ws else ws ++ '.' :: fs)) n
      places := by
  split
  · next hzero =>
    have hfs : fs = [] := List.eq_nil_of_length_eq_zero (h.length.trans hzero)
    have hvalue := h.value
    rw [hfs, List.append_nil] at hvalue
    rw [hzero, ← hvalue]
    exact .whole h.whole h.ne_nil
  · rw [← h.value, ← h.length]
    exact .point h.whole h.behind (List.append_ne_nil_of_left_ne_nil h.ne_nil fs)

/-- Each zero at the end of the places is a power of ten. -/
theorem Placed.exists_dropEnd (h : Placed n places ws fs) :
    ∃ m kept, kept ≤ places ∧ m * 10 ^ (places - kept) = n ∧
      Placed m kept ws (dropEnd '0' fs) := by
  obtain ⟨j, hj⟩ := exists_append_replicate '0' fs
  have hlength : (dropEnd '0' fs).length + j = places := by
    rw [← h.length]
    conv_rhs => rw [hj, List.length_append, List.length_replicate]
  refine ⟨digitsValue (ws ++ dropEnd '0' fs), (dropEnd '0' fs).length, by omega, ?_,
    h.whole, fun d hd => h.behind d ?_, h.ne_nil, rfl, rfl⟩
  · rw [← hlength, Nat.add_sub_cancel_left, ← h.value, ← digitsValue_append_zeros,
      List.append_assoc, ← hj]
  · rw [hj]
    exact List.mem_append_left _ hd

/-- A point at the end is taken away, and no other. -/
theorem Placed.dropEnd_point (h : Placed n places ws fs) :
    dropEnd '.' (ws ++ '.' :: fs) = if places = 0 then ws else ws ++ '.' :: fs := by
  split
  · next hzero =>
    have hws := dropEnd_of_allDigits (c := '.') rfl h.whole h.ne_nil []
    rw [List.nil_append] at hws
    rw [List.eq_nil_of_length_eq_zero (h.length.trans hzero), dropEnd_concat_self, hws]
  · next hplaces =>
    have hne : fs ≠ [] := by
      rintro rfl
      exact hplaces h.length.symm
    have hfs := dropEnd_of_allDigits (c := '.') rfl h.behind hne (ws ++ ['.'])
    rwa [List.append_assoc, List.singleton_append] at hfs

end Placed

theorem isDecimal_withPlaces (negative : Bool) (n places : Nat) :
    IsDecimal negative (withSign negative (withPlaces n places)) n places := by
  obtain ⟨ws, fs, h, heq⟩ := exists_withPlaces n places
  rw [heq]
  exact h.isDecimal negative

/-- **Zeros at the end.** A decimal with fixed places is one of the same number without the zeros
    at its end, in fewer places. -/
theorem exists_isDecimal_dropPlaces (negative : Bool) (n places : Nat) :
    ∃ digits kept, kept ≤ places ∧ digits * 10 ^ (places - kept) = n ∧
      IsDecimal negative (dropPlaces (String.ofList (withSign negative (withPlaces n places)))).toList
        digits kept := by
  obtain ⟨ws, fs, h, heq⟩ := exists_withPlaces n places
  rw [dropPlaces, String.toList_ofList]
  by_cases hzero : places = 0
  · -- There is no point, so nothing is taken away.
    have hpoint : '.' ∉ withSign negative (withPlaces n places) := by
      intro hmem
      rw [heq, if_pos hzero] at hmem
      rcases mem_withSign hmem with hmem | hmem
      · exact absurd hmem (by decide)
      · exact absurd (h.whole _ hmem) (by decide)
    rw [if_neg hpoint, String.toList_ofList]
    exact ⟨n, places, le_rfl, by rw [Nat.sub_self, pow_zero, mul_one],
      isDecimal_withPlaces negative n places⟩
  · obtain ⟨digits, kept, hkept, hvalue, hdropped⟩ := h.exists_dropEnd
    refine ⟨digits, kept, hkept, hvalue, ?_⟩
    rw [heq, if_neg hzero, if_pos (by simp [withSign]), String.toList_ofList,
      dropEnd_withSign (by decide), dropEnd_append_cons (by decide), dropEnd_withSign (by decide),
      hdropped.dropEnd_point]
    exact hdropped.isDecimal negative

end Decimal

end Formulary
