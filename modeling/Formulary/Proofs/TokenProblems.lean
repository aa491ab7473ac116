/-
  Formulary.Proofs.TokenProblems

  What the check can say of a token, and what a list of allowed names changes about it.

  `Kind.problems` lists the problems that a token of a kind can have, whatever stands around
  it. Only reference names are looked up in the list of allowed names, and to be missing there
  is the one thing that is said of them. So a list adds faults to those that are found
  without one, one for each name that is not in it, and leaves the others as they are and in
  their order (`check_allowed`). A longer list adds fewer of them.
-/

import Formulary.Fault.Check
import Formulary.Token.Lexeme

namespace Formulary

/-! ## Problems of a kind -/

/-- The problems that a token of a kind can have, in the order in which they are told. -/
def Kind.problems : Kind → List Problem
  | operator => [.unexpectedOperator, .valueRequiredAfterOperator]
  | number => [.operatorRequiredBeforeNumber]
  | function => [.operatorRequiredBeforeFunction, .invalidFunction]
  | openQuote | openDoubleQuote => [.operatorRequiredBeforeQuote]
  | comma => [.unexpectedComma]
  | unknown => [.invalidCharacter]
  | openBracket => [.operatorRequiredBeforeBracket]
  | closeBracket => [.unexpectedBracket]
  | openBrace => [.operatorRequiredBeforeReference]
  | closeBrace => [.referenceNameRequiredInBrackets, .unexpectedReferenceBracket]
  | reference => [.unsupportedReferenceName]
  | quoted | blank | group | closeQuote | closeDoubleQuote => []

namespace Fault

variable {allowed : Option (List String)} {names others : List String}
  {before after : Option Kind} {opened : List Opening} {t : Token}

theorem mem_require {c : Bool} {p q : Problem} : p ∈ require c q ↔ c = true ∧ p = q := by
  cases c <;> simp [require]

theorem require_sublist (c : Bool) (p : Problem) : (require c p).Sublist [p] := by
  cases c with
  | false => exact List.nil_sublist [p]
  | true => exact List.Sublist.refl [p]

/-- A token has problems of its kind only, each at most once. -/
theorem problems_sublist : (problems allowed before after opened t).Sublist t.kind.problems := by
  obtain ⟨k, s⟩ := t
  cases k with
  | operator | function => exact (require_sublist _ _).append (require_sublist _ _)
  | closeBrace =>
    simp only [problems]
    split
    · exact (require_sublist _ _).trans (List.sublist_append_left [_] [_])
    · exact List.sublist_append_right [_] [_]
  | unknown => exact List.Sublist.refl _
  | quoted | blank | group | closeQuote | closeDoubleQuote => exact List.nil_sublist _
  | _ => exact require_sublist _ _

/-! ## Names that are not allowed -/

/-- The faults of the names that are not in a list of names in lower case, from the token with the
    given index on. -/
def unsupportedFrom (names : List String) (index : Nat) (ts : List Token) : List Fault :=
  ((ts.zipIdx index).filter fun p => p.1.kind = .reference ∧ Text.lower p.1.text ∉ names).map
    fun p => atToken p.2 p.1 .unsupportedReferenceName

theorem unsupportedFrom_cons (names : List String) (index : Nat) (t : Token) (ts : List Token) :
    unsupportedFrom names index (t :: ts) =
      (require (t.kind = .reference ∧ Text.lower t.text ∉ names)
        .unsupportedReferenceName).map (atToken index t) ++ unsupportedFrom names (index + 1) ts := by
  rw [unsupportedFrom, unsupportedFrom, List.zipIdx_cons, List.filter_cons, require]
  split
  · rfl
  · rfl

theorem problems_of_reference (ht : t.kind = .reference) :
    problems allowed before after opened t =
      require (allowed.any fun names => Text.lower t.text ∉ names) .unsupportedReferenceName := by
  rw [problems, ht]

/-- Other tokens are not looked up in the list. -/
theorem problems_of_ne_reference (ht : t.kind ≠ .reference) :
    problems allowed before after opened t = problems none before after opened t := by
  obtain ⟨k, s⟩ := t
  cases k with
  | reference => exact absurd rfl ht
  | _ => rfl

theorem ne_unsupported_of_mem_problems (ht : t.kind ≠ .reference) {p : Problem}
    (hp : p ∈ problems allowed before after opened t) : p ≠ .unsupportedReferenceName := by
  have hkind : ∀ k : Kind, .unsupportedReferenceName ∈ k.problems → k = .reference := by
    intro k
    cases k <;> decide
  rintro rfl
  exact ht (hkind t.kind (problems_sublist.subset hp))

/-- The problems of a token that have nothing to do with the list. -/
theorem filter_problems_ne :
    (problems (some names) before after opened t).filter (· ≠ .unsupportedReferenceName) =
      problems none before after opened t := by
  by_cases ht : t.kind = .reference
  · have hnone : require false .unsupportedReferenceName = [] := rfl
    rw [problems_of_reference ht, problems_of_reference ht, Option.any_none, hnone,
      List.filter_eq_nil_iff]
    exact fun p hp hne => of_decide_eq_true hne (mem_require.mp hp).2
  · rw [problems_of_ne_reference ht, List.filter_eq_self]
    exact fun p hp => decide_eq_true (ne_unsupported_of_mem_problems ht hp)

/-- The problem that it has because of the list. -/
theorem filter_problems_eq :
    (problems (some names) before after opened t).filter (· = .unsupportedReferenceName) =
      require (t.kind = .reference ∧ Text.lower t.text ∉ names) .unsupportedReferenceName := by
  by_cases ht : t.kind = .reference
  · have hall : ∀ p ∈ require (decide (Text.lower t.text ∉ names)) .unsupportedReferenceName,
        decide (p = .unsupportedReferenceName) = true := fun p hp =>
      decide_eq_true (mem_require.mp hp).2
    rw [problems_of_reference ht, Option.any_some, List.filter_eq_self.mpr hall]
    simp [ht]
  · have hnone : ∀ p ∈ problems (some names) before after opened t,
        ¬decide (p = .unsupportedReferenceName) = true := fun p hp h =>
      ne_unsupported_of_mem_problems ht hp (of_decide_eq_true h)
    rw [List.filter_eq_nil_iff.mpr hnone]
    simp [require, ht]

/-- A longer list finds no more in a token. -/
theorem problems_sublist_of_subset (h : names ⊆ others) :
    (problems (some others) before after opened t).Sublist
      (problems (some names) before after opened t) := by
  by_cases ht : t.kind = .reference
  · rw [problems_of_reference ht, problems_of_reference ht, Option.any_some, Option.any_some]
    by_cases hothers : Text.lower t.text ∈ others
    · rw [require, if_neg (by simpa using hothers)]
      exact List.nil_sublist _
    · have hnames : Text.lower t.text ∉ names := fun hn => hothers (h hn)
      simp only [hothers, hnames, List.Sublist.refl]
  · have hnone (allowed : Option (List String)) : problems allowed before after opened t =
        problems none before after opened t := problems_of_ne_reference ht
    simp only [hnone (some others), hnone (some names), List.Sublist.refl]

/-! ## The whole check -/

theorem filter_map_atToken (q : Problem → Bool) (index : Nat) (t : Token) (ps : List Problem) :
    (ps.map (atToken index t)).filter (fun f => q f.problem) =
      (ps.filter q).map (atToken index t) := by
  rw [List.filter_map]
  rfl

theorem unclosed_ne_unsupported (o : Opening) : o.unclosed ≠ .unsupportedReferenceName := by
  cases o <;> decide

theorem ne_unsupported_of_mem_ofUnclosed {opened : List Open} {f : Fault}
    (h : f ∈ ofUnclosed opened) : f.problem ≠ .unsupportedReferenceName := by
  obtain ⟨o, -, rfl⟩ := List.mem_map.mp h
  exact unclosed_ne_unsupported o.opening

theorem filter_checkFrom_ne (index : Nat) (before : Option Kind) (opened : List Open)
    (ts : List Token) :
    (checkFrom (some names) index before opened ts).filter
        (·.problem ≠ .unsupportedReferenceName) = checkFrom none index before opened ts := by
  induction ts generalizing index before opened with
  | nil =>
    exact List.filter_eq_self.mpr fun f hf => decide_eq_true (ne_unsupported_of_mem_ofUnclosed hf)
  | cons t ts ih =>
    rw [checkFrom, checkFrom, List.filter_append, ih,
      filter_map_atToken (· ≠ .unsupportedReferenceName), filter_problems_ne]

theorem filter_checkFrom_eq (index : Nat) (before : Option Kind) (opened : List Open)
    (ts : List Token) :
    (checkFrom (some names) index before opened ts).filter
        (·.problem = .unsupportedReferenceName) = unsupportedFrom names index ts := by
  induction ts generalizing index before opened with
  | nil =>
    refine List.filter_eq_nil_iff.mpr fun f hf h => ?_
    exact ne_unsupported_of_mem_ofUnclosed hf (of_decide_eq_true h)
  | cons t ts ih =>
    rw [checkFrom, List.filter_append, ih, filter_map_atToken (· = .unsupportedReferenceName),
      filter_problems_eq, unsupportedFrom_cons]

theorem checkFrom_sublist (h : names ⊆ others) (index : Nat) (before : Option Kind)
    (opened : List Open) (ts : List Token) :
    (checkFrom (some others) index before opened ts).Sublist
      (checkFrom (some names) index before opened ts) := by
  induction ts generalizing index before opened with
  | nil => exact List.Sublist.refl _
  | cons t ts ih => exact ((problems_sublist_of_subset h).map _).append (ih _ _ _)

/-- **Allowed names.** A list of allowed names adds faults to those that a formula has without one:
    one for each reference whose name in lower case is not in the list in lower case, in the
    order of the tokens, and no other. The faults that it has without a list stay in their
    order. Two lists with the same names in lower case find the same faults, and a list with
    more names in lower case only leaves some out. -/
theorem check_allowed (names : List String) (ts : List Token) :
    (check (some names) ts).filter (·.problem ≠ .unsupportedReferenceName) = check none ts ∧
    (check (some names) ts).filter (·.problem = .unsupportedReferenceName) =
      unsupportedFrom (names.map Text.lower) 0 ts ∧
    (∀ others : List String, (∀ n, n ∈ names.map Text.lower ↔ n ∈ others.map Text.lower) →
      check (some others) ts = check (some names) ts) ∧
    ∀ others : List String, names.map Text.lower ⊆ others.map Text.lower →
      (check (some others) ts).Sublist (check (some names) ts) := by
  have hlonger {names others : List String} (h : names.map Text.lower ⊆ others.map Text.lower) :
      (check (some others) ts).Sublist (check (some names) ts) := checkFrom_sublist h _ _ _ ts
  refine ⟨filter_checkFrom_ne _ _ _ ts, filter_checkFrom_eq _ _ _ ts, fun others h => ?_,
    fun others h => hlonger h⟩
  exact (hlonger fun n => (h n).mp).eq_of_length_le (hlonger fun n => (h n).mpr).length_le

/-- Three names, of which one is not allowed, with another spelling of the list and with a longer
    one. -/
theorem check_allowed_respelled :
    let ts := tokenize "\x7bprice\x7d * \x7bQTY\x7d + \x7btax\x7d 5"
    check (some ["Price", "qty"]) ts =
      [⟨.unsupportedReferenceName, some (13, ⟨.reference, "tax"⟩)⟩,
        ⟨.operatorRequiredBeforeNumber, some (16, ⟨.number, "5"⟩)⟩] ∧
    check (some ["QTY", "price", "PRICE"]) ts = check (some ["Price", "qty"]) ts ∧
    (check (some ["tax", "Price", "Qty"]) ts).Sublist (check (some ["Price", "qty"]) ts) := by
  intro ts
  have hnames : ["Price", "qty"].map Text.lower = ["price", "qty"] := by decide +kernel
  have hrespelled : ["QTY", "price", "PRICE"].map Text.lower = ["qty", "price", "price"] := by
    decide +kernel
  have hlonger : ["tax", "Price", "Qty"].map Text.lower = ["tax", "price", "qty"] := by
    decide +kernel
  obtain ⟨-, -, hsame, hfewer⟩ := check_allowed ["Price", "qty"] ts
  rw [hnames] at hsame hfewer
  refine ⟨by decide +kernel, hsame _ fun n => ?_, hfewer _ ?_⟩
  · rw [hrespelled]
    simp [or_comm]
  · rw [hlonger]
    simp

end Fault

end Formulary
