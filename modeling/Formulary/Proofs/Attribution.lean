/-
  Formulary.Proofs.Attribution

  Which faults stand in the list of an entry.

  Three passes write faults: one those of the entry's own tokens and of references that lead back
  to it, one that of a reference to a formula with faults, and one that of waiting for a circle.
  The later ones leave an entry alone that has faults already, so the list of an entry is that of
  the first pass, or it holds at most one fault (`faults_resolve_of_own`).

    * `TellsOfCircles` says which faults of circles stand at which tokens, by what the names reach;
      the faults of `circleFaults` are these and no others (`tellsOfCircles_iff`).
    * The check of tokens never tells of circles (`Fault.isOwn_of_mem_check`), so an entry with
      a fault that does lies on one.
-/

import Formulary.Proofs.Marking
import Formulary.Proofs.TokenProblems

namespace Formulary

/-! ## Problems of tokens -/

/-- Whether a problem concerns the tokens of a formula, and not its references to others. -/
def Problem.isOwn : Problem → Bool
  | circularReference | circularReferenceToItself | dependsOnInvalid | dependsOnCircular => false
  | _ => true

namespace Fault

/-- What the check says of one token concerns the token. -/
theorem isOwn_of_mem_problems {allowed : Option (List String)} {before after : Option Kind}
    {opened : List Opening} {t : Token} {p : Problem}
    (h : p ∈ problems allowed before after opened t) : p.isOwn = true := by
  have hkind : ∀ k : Kind, ∀ q ∈ k.problems, q.isOwn = true := by
    intro k
    cases k <;> decide
  exact hkind t.kind p (problems_sublist.subset h)

theorem isOwn_unclosed (o : Opening) : o.unclosed.isOwn = true := by cases o <;> rfl

theorem isOwn_of_mem_checkFrom {allowed : Option (List String)} {index : Nat}
    {before : Option Kind} {opened : List Open} {ts : List Token} {fault : Fault}
    (h : fault ∈ checkFrom allowed index before opened ts) : fault.problem.isOwn = true := by
  induction ts generalizing index before opened with
  | nil =>
    obtain ⟨o, -, rfl⟩ := List.mem_map.mp h
    exact isOwn_unclosed o.opening
  | cons t ts ih =>
    rw [checkFrom] at h
    rcases List.mem_append.mp h with h | h
    · obtain ⟨p, hp, rfl⟩ := List.mem_map.mp h
      exact isOwn_of_mem_problems hp
    · exact ih h

/-- The check of tokens never tells of references to other formulas. -/
theorem isOwn_of_mem_check {allowed : Option (List String)} {ts : List Token} {fault : Fault}
    (h : fault ∈ check allowed ts) : fault.problem.isOwn = true := isOwn_of_mem_checkFrom h

end Fault

namespace Resolution

variable {fields : List String} {pairs : List (String × String)} {r : Resolved}

/-! ## Faults of circles, token by token -/

/-- The faults of circles of a formula with the given name, for the tokens from an index on: one
    for each reference to the name itself, and one for each other reference from whose name a
    chain of references leads back. -/
inductive TellsOfCircles (pairs : List (String × String)) (n : String) :
    Nat → List Token → List Fault → Prop where
  | none (i : Nat) : TellsOfCircles pairs n i [] []
  | itself {i : Nat} {t : Token} {ts : List Token} {faults : List Fault}
      (kind : t.kind = .reference) (name : Text.lower t.text = n)
      (rest : TellsOfCircles pairs n (i + 1) ts faults) :
      TellsOfCircles pairs n i (t :: ts) (.atToken i t .circularReferenceToItself :: faults)
  | back {i : Nat} {t : Token} {ts : List Token} {faults : List Fault}
      (kind : t.kind = .reference) (name : Text.lower t.text ≠ n)
      (leads : Reaches pairs (Text.lower t.text) n)
      (rest : TellsOfCircles pairs n (i + 1) ts faults) :
      TellsOfCircles pairs n i (t :: ts) (.atToken i t .circularReference :: faults)
  | other {i : Nat} {t : Token} {ts : List Token} {faults : List Fault}
      (no : t.kind = .reference → Text.lower t.text ≠ n ∧ ¬Reaches pairs (Text.lower t.text) n)
      (rest : TellsOfCircles pairs n (i + 1) ts faults) :
      TellsOfCircles pairs n i (t :: ts) faults

/-- The faults of circles are determined. -/
theorem TellsOfCircles.unique {n : String} {i : Nat} {ts : List Token} {fs gs : List Fault}
    (hf : TellsOfCircles pairs n i ts fs) (hg : TellsOfCircles pairs n i ts gs) : fs = gs := by
  -- The conditions of the constructors exclude each other, so both lists grow alike.
  induction hf generalizing gs with
  | none i => cases hg; rfl
  | itself kind name _ ih =>
    cases hg with
    | itself _ _ rest => rw [ih rest]
    | back _ hne _ _ => exact absurd name hne
    | other no _ => exact absurd name (no kind).1
  | back kind name leads _ ih =>
    cases hg with
    | itself _ heq _ => exact absurd heq name
    | back _ _ _ rest => rw [ih rest]
    | other no _ => exact absurd leads (no kind).2
  | other no _ ih =>
    cases hg with
    | itself kind heq _ => exact absurd heq (no kind).1
    | back kind _ leads _ => exact absurd leads (no kind).2
    | other _ rest => exact ih rest

/-- The fault of a reference that leads back to a formula. -/
theorem tellsOfCircles_referencesFrom (f : Formula) (i : Nat) (ts : List Token) :
    TellsOfCircles pairs f.name i ts
      ((Formula.referencesFrom i ts).filterMap fun (index, t, target) =>
        if target = f.name then some (.atToken index t .circularReferenceToItself)
        else if f.name ∈ (graph (Formula.latest pairs)).reachable target then
          some (.atToken index t .circularReference)
        else none) := by
  induction ts generalizing i with
  | nil => exact .none i
  | cons t ts ih =>
    rw [Formula.referencesFrom]
    by_cases hk : t.kind = .reference
    · rw [if_pos hk, List.filterMap_cons]
      by_cases hself : Text.lower t.text = f.name
      · simp only [if_pos hself]
        exact .itself hk hself (ih (i + 1))
      · by_cases hback : f.name ∈ (graph (Formula.latest pairs)).reachable (Text.lower t.text)
        · simp only [if_neg hself, if_pos hback]
          exact .back hk hself (mem_reachable_graph.mp hback) (ih (i + 1))
        · simp only [if_neg hself, if_neg hback]
          exact .other (fun _ => ⟨hself, fun h => hback (mem_reachable_graph.mpr h)⟩) (ih (i + 1))
    · rw [if_neg hk]
      exact .other (fun h => absurd h hk) (ih (i + 1))

theorem tellsOfCircles_iff (f : Formula) (faults : List Fault) :
    TellsOfCircles pairs f.name 0 f.tokens faults ↔
      faults = circleFaults (graph (Formula.latest pairs)) f := by
  have htells : TellsOfCircles pairs f.name 0 f.tokens
      (circleFaults (graph (Formula.latest pairs)) f) := tellsOfCircles_referencesFrom f 0 f.tokens
  constructor
  · intro h
    exact h.unique htells
  · rintro rfl
    exact htells

/-! ## The list of an entry -/

/-- Whether a fault tells of a circle that the formula lies on. -/
def OfCircle (fault : Fault) : Prop :=
  fault.problem = .circularReference ∨ fault.problem = .circularReferenceToItself

/-- A single fault at a reference to another formula that has faults. -/
def CausedBy (fields : List String) (pairs : List (String × String)) (r : Resolved)
    (faults : List Fault) : Prop :=
  ∃ i t, r.formula.tokens[i]? = some t ∧ t.kind = .reference ∧ Text.lower t.text ≠ r.name ∧
    Faulty fields pairs (Text.lower t.text) ∧ faults = [.atToken i t .dependsOnInvalid]

/-- An entry without faults of its own has none, or one that another formula causes, or waits for
    a circle and has no layer. -/
theorem faults_of_ownFaults_eq_nil (hr : r ∈ resolve fields pairs)
    (hown : ownFaults fields pairs r.formula = []) :
    r.faults = [] ∨ CausedBy fields pairs r r.faults ∨
      r.layer = 0 ∧ r.faults = [.ofWhole .dependsOnCircular] := by
  have htells := tellsFirst_known hr hown
  -- If some reference leads to a formula whose faults are known, the first such reference is told
  -- of; if none does, only the last pass can have written something.
  by_cases hknown : ∃ n, r.formula.Refers n ∧ n ≠ r.name ∧ Known fields pairs r n
  · obtain ⟨n, href, hn⟩ := hknown
    obtain ⟨i, t, hfirst⟩ := Formula.exists_firstReference
      (p := fun n => n ≠ r.name ∧ Known fields pairs r n) href hn
    obtain ⟨hne, hcause⟩ := hfirst.leads
    exact .inr (.inl ⟨i, t, hfirst.token, hfirst.reference, hne, hcause.faulty,
      htells.told i t hfirst⟩)
  · have hfaults := htells.untold fun n href hne hn => hknown ⟨n, href, hne, hn⟩
    by_cases hlayer : r.layer = 0
    · rw [if_pos hlayer] at hfaults
      exact .inr (.inr ⟨hlayer, hfaults⟩)
    · rw [if_neg hlayer] at hfaults
      exact .inl hfaults

/-- What others cause does not tell of a circle that the formula lies on. -/
theorem not_ofCircle_of_ownFaults_eq_nil (hr : r ∈ resolve fields pairs)
    (hown : ownFaults fields pairs r.formula = []) {fault : Fault} (h : fault ∈ r.faults) :
    ¬OfCircle fault := by
  rcases faults_of_ownFaults_eq_nil hr hown with hnil | ⟨i, t, -, -, -, -, hone⟩ | ⟨-, hone⟩
  · rw [hnil] at h
    exact nomatch h
  · rw [hone, List.mem_singleton] at h
    rw [h]
    exact nofun
  · rw [hone, List.mem_singleton] at h
    rw [h]
    exact nofun

/-- An entry tells of a circle if and only if it lies on one. -/
theorem exists_ofCircle_iff (hr : r ∈ resolve fields pairs) :
    (∃ fault ∈ r.faults, OfCircle fault) ↔ Reaches pairs r.name r.name := by
  have hf := (entry_of_mem hr).defines
  have hcircle := circleFaults_eq_nil_iff hf
  constructor
  · rintro ⟨fault, hfault, htells⟩
    by_contra hno
    by_cases hown : ownFaults fields pairs r.formula = []
    · exact not_ofCircle_of_ownFaults_eq_nil hr hown hfault htells
    · -- All faults are those of the tokens, and these do not tell of circles.
      rw [faults_eq_ownFaults hr hown, ownFaults, hcircle.mpr hno, List.append_nil] at hfault
      have hfrom := Fault.isOwn_of_mem_check hfault
      rcases htells with heq | heq <;> rw [heq] at hfrom <;> exact Bool.false_ne_true hfrom
  · intro hreach
    obtain ⟨fault, hfault⟩ := List.exists_mem_of_ne_nil _ (mt hcircle.mp (not_not_intro hreach))
    have hmem : fault ∈ ownFaults fields pairs r.formula := List.mem_append_right _ hfault
    refine ⟨fault, ?_, problem_of_mem_circleFaults hfault⟩
    rwa [faults_eq_ownFaults hr (List.ne_nil_of_mem hmem)]

/-- **Lists of faults.** The faults of an entry are those of its own tokens, the fields and all
    defined names being allowed, and behind them, in the order of the tokens, one for each
    reference that leads back to it. If there are none of these, the entry has no fault, or one at
    a reference to another formula that has faults, or it has no layer and waits for a circle. An
    entry without a layer has some fault, and an entry has a fault of a circle if and only if it
    lies on one. -/
theorem faults_resolve_of_own (fields : List String) (pairs : List (String × String))
    (hr : r ∈ resolve fields pairs) :
    ∃ circles, (∀ faults, TellsOfCircles pairs r.name 0 r.formula.tokens faults ↔
        faults = circles) ∧
      (let own := Fault.check (some (fields ++ (Formula.latest pairs).map Formula.name))
          r.formula.tokens ++ circles
       (own ≠ [] → r.faults = own) ∧
        (own = [] → r.faults = [] ∨ CausedBy fields pairs r r.faults ∨
          r.layer = 0 ∧ r.faults = [.ofWhole .dependsOnCircular])) ∧
      (r.layer = 0 → r.faults ≠ []) ∧
      ((∃ fault ∈ r.faults, OfCircle fault) ↔ Reaches pairs r.name r.name) := by
  refine ⟨_, tellsOfCircles_iff r.formula, ⟨faults_eq_ownFaults hr, faults_of_ownFaults_eq_nil hr⟩,
    fun hlayer => ?_, exists_ofCircle_iff hr⟩
  exact List.isEmpty_eq_false_iff.mp (isValid_of_layer_eq_zero hr hlayer)

/-- A formula that refers to itself and to one that refers back. -/
theorem faults_resolve_of_own_circle :
    ∃ r ∈ resolve [] [("A", "\x7ba\x7d+\x7bb\x7d"), ("b", "\x7bA\x7d"), ("c", "\x7bb\x7d")],
      r.name = "a" ∧
      r.faults = [.atToken 1 ⟨.reference, "a"⟩ .circularReferenceToItself,
        .atToken 5 ⟨.reference, "b"⟩ .circularReference] ∧
      TellsOfCircles [("A", "\x7ba\x7d+\x7bb\x7d"), ("b", "\x7bA\x7d"), ("c", "\x7bb\x7d")] r.name
        0 r.formula.tokens r.faults ∧
      Reaches [("A", "\x7ba\x7d+\x7bb\x7d"), ("b", "\x7bA\x7d"), ("c", "\x7bb\x7d")] r.name
        r.name := by
  have hlist : (resolve [] [("A", "\x7ba\x7d+\x7bb\x7d"), ("b", "\x7bA\x7d"),
      ("c", "\x7bb\x7d")]).map (fun r => (r.formula, r.faults)) =
        [(⟨"a", "A", "\x7ba\x7d+\x7bb\x7d"⟩,
            [.atToken 1 ⟨.reference, "a"⟩ .circularReferenceToItself,
              .atToken 5 ⟨.reference, "b"⟩ .circularReference]),
          (⟨"b", "b", "\x7bA\x7d"⟩, [.atToken 1 ⟨.reference, "A"⟩ .circularReference]),
          (⟨"c", "c", "\x7bb\x7d"⟩, [.atToken 1 ⟨.reference, "b"⟩ .dependsOnInvalid])] := by
    cbv
  have hnames : (Formula.latest [("A", "\x7ba\x7d+\x7bb\x7d"), ("b", "\x7bA\x7d"),
      ("c", "\x7bb\x7d")]).map Formula.name = ["a", "b", "c"] := by
    cbv
  have hclean : Fault.check (some ["a", "b", "c"]) (tokenize "\x7ba\x7d+\x7bb\x7d") = [] := by
    decide +kernel
  obtain ⟨r, hr, heq⟩ := List.mem_map.mp (List.mem_of_getElem? (congrArg (fun l => l[0]?) hlist))
  obtain ⟨hformula, hfaults⟩ := Prod.mk.inj heq
  have hcheck : Fault.check (some ([] ++ (Formula.latest [("A", "\x7ba\x7d+\x7bb\x7d"),
      ("b", "\x7bA\x7d"), ("c", "\x7bb\x7d")]).map Formula.name)) r.formula.tokens = [] := by
    rw [hnames, hformula]
    exact hclean
  obtain ⟨circles, htells, ⟨hown, hnone⟩, -, hcircle⟩ := faults_resolve_of_own _ _ hr
  rw [hcheck, List.nil_append] at hown hnone
  refine ⟨r, hr, congrArg Formula.name hformula, hfaults, ?_, hcircle.mp ?_⟩
  · -- There are faults of circles, for without any the list would hold one fault at most.
    by_cases hnil : circles = []
    · rcases hnone hnil with h | ⟨i, t, -, -, -, -, h⟩ | ⟨-, h⟩ <;> rw [hfaults] at h <;> simp at h
    · exact (htells _).mpr (hown hnil)
  · rw [hfaults]
    exact ⟨_, List.mem_cons_self, .inr rfl⟩

end Resolution

end Formulary
