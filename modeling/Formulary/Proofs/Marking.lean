/-
  Formulary.Proofs.Marking

  Which faults an entry ends up with.

  The entries stand in the order of their layers and, in a layer, of their names (`Before`).
  Marking goes through them once, so an entry is marked by what is known to have faults when
  its turn comes: formulas with faults of their own, and formulas before it that have been
  marked already (`Known`). `exists_mark_eq` says that of every entry.

  For an entry with a layer this is all that has faults in the end, since what it refers to
  lies in lower layers (`known_iff_faulty`). Entries without a layer are all in layer zero,
  where names decide, so there a formula may come before its cause and miss it.
-/

import Formulary.Proofs.Validity

namespace Formulary

namespace Resolution

variable {fields : List String} {pairs : List (String × String)} {r s : Resolved}

/-! ## The order of the entries -/

/-- The entry lies in a lower layer, or in the same layer and has a lower name. -/
def Before (r s : Resolved) : Prop := r.layer < s.layer ∨ r.layer = s.layer ∧ r.name < s.name

theorem Before.irrefl (r : Resolved) : ¬Before r r := by
  rintro (h | ⟨-, h⟩)
  · omega
  · exact String.lt_irrefl _ h

theorem Before.asymm (h : Before r s) : ¬Before s r := by
  rintro (k | ⟨heq, k⟩)
  · rcases h with h | ⟨heq, -⟩ <;> omega
  · rcases h with h | ⟨-, h⟩
    · omega
    · exact String.lt_irrefl _ (String.lt_trans h k)

/-- Marking changes neither layer nor name. -/
theorem before_mark_iff {names : List String} : Before (mark names r) s ↔ Before r s := by
  have hlayer : (mark names r).layer = r.layer := mark_frame (fun _ _ => rfl) _ _
  have hname : (mark names r).name = r.name := mark_frame (fun _ _ => rfl) _ _
  rw [Before, hlayer, hname, Before]

theorem pairwise_name_unmarked (fields : List String) (pairs : List (String × String)) :
    ((Formula.latest pairs).map (unmarked fields pairs)).Pairwise fun a b => a.name < b.name :=
  List.pairwise_map.mpr (List.pairwise_map.mp (pairwise_name_latest pairs))

/-- Sorting by layers leaves the entries of one layer as they stand. -/
theorem filter_layer_ordered (fields : List String) (pairs : List (String × String)) (k : Nat) :
    (ordered fields pairs).filter (fun r => r.layer = k) =
      ((Formula.latest pairs).map (unmarked fields pairs)).filter fun r => r.layer = k := by
  have hperm := (ordered_perm fields pairs).filter fun r => r.layer = k
  -- The entries of the layer are in order already, so the sort keeps them as a sublist.
  have hsub : (((Formula.latest pairs).map (unmarked fields pairs)).filter
      fun r => r.layer = k).Sublist (ordered fields pairs) := by
    apply List.sublist_mergeSort
    · simp only [decide_eq_true_eq]
      omega
    · simp only [Bool.or_eq_true, decide_eq_true_eq]
      omega
    · rw [List.pairwise_filter]
      refine List.pairwise_of_forall fun a b ha hb => ?_
      simp only [decide_eq_true_eq] at ha hb ⊢
      omega
    · exact List.filter_sublist
  have hboth := hsub.filter fun r => r.layer = k
  rw [List.filter_filter] at hboth
  simp only [Bool.and_self] at hboth
  exact (hboth.eq_of_length hperm.length_eq.symm).symm

/-- The entries stand in the order of their layers and, in a layer, of their names. -/
theorem pairwise_before_ordered (fields : List String) (pairs : List (String × String)) :
    (ordered fields pairs).Pairwise Before := by
  rw [List.pairwise_iff_forall_sublist]
  intro a b hab
  have hle : a.layer ≤ b.layer :=
    List.pairwise_iff_forall_sublist.mp (pairwise_layer_ordered fields pairs) hab
  rcases Nat.lt_or_eq_of_le hle with hlt | heq
  · exact .inl hlt
  · refine .inr ⟨heq, ?_⟩
    have hlayer := hab.filter fun r => r.layer = a.layer
    rw [filter_layer_ordered] at hlayer
    have hkept : [a, b].filter (fun r => r.layer = a.layer) = [a, b] := by simp [heq]
    rw [hkept] at hlayer
    exact List.pairwise_iff_forall_sublist.mp (pairwise_name_unmarked fields pairs)
      (hlayer.trans List.filter_sublist)

/-- What is marked in the end stands in the same order. -/
theorem pairwise_before_resolve (fields : List String) (pairs : List (String × String)) :
    (resolve fields pairs).Pairwise Before := by
  have hpairs : ((ordered fields pairs).map fun r => (r.layer, r.name)).Pairwise fun a b =>
      a.1 < b.1 ∨ a.1 = b.1 ∧ a.2 < b.2 :=
    List.pairwise_map.mpr (pairwise_before_ordered fields pairs)
  rw [← map_resolve fields pairs fun _ _ => rfl] at hpairs
  have hresolve := List.pairwise_map.mp hpairs
  exact hresolve

/-- What holds of an entry if it holds of all entries before it holds of every entry. -/
theorem forall_of_before {rs : List Resolved} (h : rs.Pairwise Before) {p : Resolved → Prop}
    (step : ∀ r ∈ rs, (∀ s ∈ rs, Before s r → p s) → p r) : ∀ r ∈ rs, p r := by
  -- From the end of the list: the last entry comes before no other, so the step for the others
  -- never asks for it.
  induction rs using List.reverseRecOn with
  | nil => exact nofun
  | append_singleton rs a ih =>
    rw [List.pairwise_append] at h
    have hbehind (r : Resolved) (hr : r ∈ rs) : Before r a := h.2.2 r hr a List.mem_cons_self
    have hfront : ∀ r ∈ rs, p r := by
      refine ih h.1 fun r hr hbefore => step r (List.mem_append_left _ hr) fun s hs hsr => ?_
      rcases List.mem_append.mp hs with hs | hs
      · exact hbefore s hs hsr
      · rw [List.mem_singleton.mp hs] at hsr
        exact absurd hsr (hbehind r hr).asymm
    intro r hr
    rcases List.mem_append.mp hr with hr | hr
    · exact hfront r hr
    · rw [List.mem_singleton.mp hr]
      refine step a (List.mem_append_right _ List.mem_cons_self) fun s hs hsa => ?_
      rcases List.mem_append.mp hs with hs | hs
      · exact hfront s hs
      · rw [List.mem_singleton.mp hs] at hsa
        exact absurd hsa (Before.irrefl a)

/-! ## What is known at an entry -/

/-- The faults that a formula has without any marking: those of its own tokens and of circles. -/
def ownFaults (fields : List String) (pairs : List (String × String)) (f : Formula) : List Fault :=
  Fault.check (some (allowed fields pairs)) f.tokens ++ circleFaults (graph (Formula.latest pairs)) f

/-- A formula with the name is known to have faults when an entry is marked: it has faults of
    its own, or it stands before the entry and is marked. -/
def Known (fields : List String) (pairs : List (String × String)) (r : Resolved) (n : String) :
    Prop :=
  ∃ s ∈ resolve fields pairs, s.name = n ∧ (ownFaults fields pairs s.formula ≠ [] ∨
    Before s r ∧ ∃ fault ∈ s.faults, fault.problem = .dependsOnInvalid)

/-- A formula with the name has faults in the end. -/
def Faulty (fields : List String) (pairs : List (String × String)) (n : String) : Prop :=
  ∃ s ∈ resolve fields pairs, s.name = n ∧ s.faults ≠ []

theorem isValid_unmarked_eq_false_iff {f : Formula} :
    (unmarked fields pairs f).isValid = false ↔ ownFaults fields pairs f ≠ [] :=
  List.isEmpty_eq_false_iff

/-- The mark of an entry without faults is a fault of its references. -/
theorem exists_dependsOnInvalid_of_mark {names : List String} (h : r.isValid = true)
    (hmark : (mark names r).isValid = false) :
    ∃ fault ∈ (mark names r).faults, fault.problem = .dependsOnInvalid := by
  rw [mark, h] at hmark ⊢
  cases hfind : r.formula.references.find? (leadsInto names r) with
  | none =>
    rw [hfind] at hmark
    exact absurd (h.symm.trans hmark) (by decide)
  | some p => exact ⟨_, List.mem_cons_self, rfl⟩

/-- An entry with a fault of its references has had it before those without a layer were looked
    at. -/
theorem isValid_of_dependsOnInvalid {fault : Fault} (h : fault ∈ (markUnresolved r).faults)
    (hproblem : fault.problem = .dependsOnInvalid) :
    r.isValid = false ∧ markUnresolved r = r := by
  cases hv : r.isValid with
  | false => exact ⟨rfl, markUnresolved_of_not_isValid hv⟩
  | true =>
    rw [markUnresolved] at h
    split at h
    · rw [List.mem_singleton.mp h] at hproblem
      exact absurd hproblem (by decide)
    · rw [List.isEmpty_iff.mp hv] at h
      exact absurd h List.not_mem_nil

section Turn

variable {f : Formula} {before after : List Resolved}

/-- An entry that stands before a formula is marked before its turn. -/
theorem mem_markFrom_of_before
    (hturn : ordered fields pairs = before ++ unmarked fields pairs f :: after)
    (hs : s ∈ marked fields pairs) (hbefore : Before s (unmarked fields pairs f)) :
    s ∈ markFrom (broken (ordered fields pairs)) before := by
  refine mem_markFrom_of_turn hturn hs ?_
  rintro t ht names rfl
  rw [before_mark_iff] at hbefore
  have hordered := pairwise_before_ordered fields pairs
  rw [hturn, List.pairwise_append, List.pairwise_cons] at hordered
  rcases List.mem_cons.mp ht with rfl | ht
  · exact Before.irrefl _ hbefore
  · exact Before.asymm (hordered.2.1.1 t ht) hbefore

/-- When the turn of a formula comes, exactly what is known has faults. -/
theorem mem_broken_iff_known
    (hturn : ordered fields pairs = before ++ unmarked fields pairs f :: after) {n : String} :
    n ∈ broken (ordered fields pairs) ++
        broken (markFrom (broken (ordered fields pairs)) before) ↔
      Known fields pairs (unmarked fields pairs f) n := by
  rw [List.mem_append, mem_broken, mem_broken]
  constructor
  · rintro (⟨t, ht, hv, rfl⟩ | ⟨t, ht, hv, rfl⟩)
    · have hkeep := mem_markFrom_of_not_isValid (broken (ordered fields pairs)) ht hv
      obtain ⟨g, -, rfl⟩ := mem_ordered.mp ht
      exact ⟨_, mem_resolve_of_not_isValid hkeep hv, rfl,
        .inl (isValid_unmarked_eq_false_iff.mp hv)⟩
    · have hmem : t ∈ marked fields pairs := by
        rw [marked_eq_of_turn hturn]
        exact List.mem_append_left _ ht
      refine ⟨t, mem_resolve_of_not_isValid hmem hv, rfl, ?_⟩
      obtain ⟨u, hu, others, rfl⟩ := exists_mark_of_mem_markFrom ht
      have hin : u ∈ ordered fields pairs := hturn ▸ List.mem_append_left _ hu
      obtain ⟨g, -, rfl⟩ := mem_ordered.mp hin
      cases hown : (unmarked fields pairs g).isValid with
      | false =>
        rw [mark_of_not_isValid others hown]
        exact .inl (isValid_unmarked_eq_false_iff.mp hown)
      | true =>
        -- An entry that has got its fault by marking stands before the formula.
        have hordered := pairwise_before_ordered fields pairs
        rw [hturn, List.pairwise_append] at hordered
        have hbefore := hordered.2.2 _ hu _ List.mem_cons_self
        exact .inr ⟨before_mark_iff.mpr hbefore, exists_dependsOnInvalid_of_mark hown hv⟩
  · rintro ⟨t, ht, rfl, hown | ⟨hbefore, fault, hfault, hproblem⟩⟩
    · refine .inl ⟨unmarked fields pairs t.formula, ?_, isValid_unmarked_eq_false_iff.mpr hown, rfl⟩
      exact mem_ordered.mpr ⟨t.formula, (entry_of_mem ht).defines, rfl⟩
    · obtain ⟨u, hu, rfl⟩ := mem_resolve.mp ht
      obtain ⟨hv, hsame⟩ := isValid_of_dependsOnInvalid hfault hproblem
      rw [hsame] at hbefore ⊢
      exact .inr ⟨u, mem_markFrom_of_before hturn hu hbefore, hv, rfl⟩

end Turn

/-- **Marking.** Every entry is marked by what is known at it. -/
theorem exists_mark_eq (hr : r ∈ resolve fields pairs) :
    ∃ names, (∀ n, n ∈ names ↔ Known fields pairs r n) ∧
      markUnresolved (mark names (unmarked fields pairs r.formula)) = r := by
  have he := entry_of_mem hr
  obtain ⟨before, after, hturn⟩ := exists_turn fields he.defines
  refine ⟨_, fun n => (mem_broken_iff_known hturn).trans ?_, ?_⟩
  · have hlayer : (unmarked fields pairs r.formula).layer = r.layer := he.layer.symm
    have hbefore (s : Resolved) : Before s (unmarked fields pairs r.formula) ↔ Before s r := by
      rw [Before, hlayer]
      rfl
    simp only [Known, hbefore]
  · refine eq_of_name_eq (mem_resolve.mpr ⟨_, ?_, rfl⟩) hr ?_
    · rw [marked_eq_of_turn hturn, markFrom]
      exact List.mem_append_right _ List.mem_cons_self
    · exact (markUnresolved_frame (fun _ _ => rfl) _).trans (mark_frame (fun _ _ => rfl) _ _)

end Resolution

/-! ## The first reference with a property -/

namespace Formula

/-- A formula has its first reference to a name with a property at an index. -/
structure FirstReference (f : Formula) (p : String → Prop) (i : Nat) (t : Token) : Prop where
  token : f.tokens[i]? = some t
  reference : t.kind = .reference
  leads : p (Text.lower t.text)
  first : ∀ j u, f.tokens[j]? = some u → u.kind = .reference → p (Text.lower u.text) → i ≤ j

theorem FirstReference.unique {f : Formula} {p : String → Prop} {i j : Nat} {t u : Token}
    (h : FirstReference f p i t) (k : FirstReference f p j u) : i = j ∧ t = u := by
  have hij := h.first j u k.token k.reference k.leads
  have hji := k.first i t h.token h.reference h.leads
  obtain rfl : i = j := Nat.le_antisymm hij hji
  exact ⟨rfl, Option.some.inj (h.token.symm.trans k.token)⟩

/-- References come in the order of their tokens. -/
theorem pairwise_referencesFrom (start : Nat) (ts : List Token) :
    (referencesFrom start ts).Pairwise fun a b => a.1 < b.1 := by
  induction ts generalizing start with
  | nil => exact .nil
  | cons t ts ih =>
    rw [referencesFrom]
    split
    · refine List.pairwise_cons.mpr ⟨?_, ih (start + 1)⟩
      rintro ⟨i, u, n⟩ hmem
      obtain ⟨j, rfl, -⟩ := mem_referencesFrom.mp hmem
      omega
    · exact ih (start + 1)

/-- The first of the references with a property is found at the first such token. -/
theorem firstReference_of_find? {f : Formula} {p : String → Prop}
    {q : Nat × Token × String → Bool} (hq : ∀ i t n, q (i, t, n) = true ↔ p n) {i : Nat}
    {t : Token} {n : String} (h : f.references.find? q = some (i, t, n)) :
    FirstReference f p i t := by
  obtain ⟨j, hj, htoken, hkind, rfl⟩ := mem_referencesFrom.mp (List.mem_of_find?_eq_some h)
  rw [Nat.zero_add] at hj
  subst hj
  refine ⟨htoken, hkind, (hq _ _ _).mp (List.find?_some h), fun k u hu hk hp => ?_⟩
  obtain ⟨-, front, back, hsplit, hfront⟩ := List.find?_eq_some_iff_append.mp h
  have hmem : (k, u, Text.lower u.text) ∈ f.references :=
    mem_referencesFrom.mpr ⟨k, (Nat.zero_add k).symm, hu, hk, rfl⟩
  have horder := pairwise_referencesFrom 0 f.tokens
  rw [← references, hsplit, List.pairwise_append, List.pairwise_cons] at horder
  rw [hsplit] at hmem
  rcases List.mem_append.mp hmem with hmem | hmem
  · have hnot := hfront _ hmem
    rw [(hq _ _ _).mpr hp] at hnot
    exact absurd hnot (by decide)
  · rcases List.mem_cons.mp hmem with heq | hmem
    · exact (Prod.mk.inj heq).1.ge
    · exact Nat.le_of_lt (horder.2.1.1 _ hmem)

/-- If no reference with a property is found, the formula does not refer to such a name. -/
theorem not_refers_of_find? {f : Formula} {p : String → Prop}
    {q : Nat × Token × String → Bool} (hq : ∀ i t n, q (i, t, n) = true ↔ p n)
    (h : f.references.find? q = none) {n : String} (href : f.Refers n) : ¬p n := by
  obtain ⟨i, t, hmem⟩ := exists_mem_references.mpr href
  intro hp
  exact List.find?_eq_none.mp h _ hmem ((hq i t n).mpr hp)

open Classical in
/-- A formula that refers to a name with a property has a first reference to one. -/
theorem exists_firstReference {f : Formula} {p : String → Prop} {n : String} (h : f.Refers n)
    (hp : p n) : ∃ i t, FirstReference f p i t := by
  have hq (i : Nat) (t : Token) (n : String) :
      (fun x : Nat × Token × String => decide (p x.2.2)) (i, t, n) = true ↔ p n :=
    decide_eq_true_iff
  cases hfind : f.references.find? fun x => decide (p x.2.2) with
  | none => exact absurd hp (not_refers_of_find? hq hfind h)
  | some x => exact ⟨x.1, x.2.1, firstReference_of_find? hq hfind⟩

theorem FirstReference.refers {f : Formula} {p : String → Prop} {i : Nat} {t : Token}
    (h : FirstReference f p i t) : f.Refers (Text.lower t.text) :=
  ⟨t, List.mem_of_getElem? h.token, h.reference, rfl⟩

theorem refers_congr {f g : Formula} {n : String} (h : f.text = g.text) :
    f.Refers n ↔ g.Refers n := by
  rw [Refers, Refers, tokens, tokens, h]

/-- The first reference depends on the text, and on the names that it refers to. -/
theorem FirstReference.congr {f g : Formula} {p q : String → Prop} {i : Nat} {t : Token}
    (h : FirstReference f p i t) (htext : f.text = g.text)
    (hpq : ∀ n, f.Refers n → (p n ↔ q n)) : FirstReference g q i t := by
  have htokens : g.tokens = f.tokens := by rw [tokens, tokens, htext]
  refine ⟨htokens ▸ h.token, h.reference, (hpq _ h.refers).mp h.leads, fun j u hu hk hq => ?_⟩
  rw [htokens] at hu
  exact h.first j u hu hk ((hpq _ ⟨u, List.mem_of_getElem? hu, hk, rfl⟩).mpr hq)

end Formula

namespace Resolution

/-! ## Faults that remain -/

/-- An entry with faults of its own keeps them and gets no others. -/
theorem faults_eq_ownFaults (hr : r ∈ resolve fields pairs)
    (hown : ownFaults fields pairs r.formula ≠ []) :
    r.faults = ownFaults fields pairs r.formula := by
  obtain ⟨names, -, heq⟩ := exists_mark_eq hr
  have hv := isValid_unmarked_eq_false_iff.mpr hown
  rw [mark_of_not_isValid names hv, markUnresolved_of_not_isValid hv] at heq
  exact (congrArg Resolved.faults heq).symm

/-- The faults of circles tell of circles. -/
theorem problem_of_mem_circleFaults {g : References} {f : Formula} {fault : Fault}
    (h : fault ∈ circleFaults g f) :
    fault.problem = .circularReference ∨ fault.problem = .circularReferenceToItself := by
  obtain ⟨⟨i, t, n⟩, -, hfault⟩ := List.mem_filterMap.mp h
  simp only at hfault
  split at hfault
  · exact .inr (congrArg Fault.problem (Option.some.inj hfault)).symm
  · split at hfault
    · exact .inl (congrArg Fault.problem (Option.some.inj hfault)).symm
    · exact nomatch hfault

/-- What is known to have faults has faults in the end. -/
theorem Known.faulty {n : String} (h : Known fields pairs r n) : Faulty fields pairs n := by
  obtain ⟨s, hs, hname, hown | ⟨-, fault, hfault, -⟩⟩ := h
  · exact ⟨s, hs, hname, by rwa [faults_eq_ownFaults hs hown]⟩
  · exact ⟨s, hs, hname, List.ne_nil_of_mem hfault⟩

/-- What an entry with a layer refers to is known to have faults if it has any in the end. -/
theorem known_iff_faulty (hr : r ∈ resolve fields pairs) (hlayer : r.layer ≠ 0) {n : String}
    (href : r.formula.Refers n) : Known fields pairs r n ↔ Faulty fields pairs n := by
  constructor
  · exact Known.faulty
  · rintro ⟨s, hs, rfl, hfaults⟩
    refine ⟨s, hs, rfl, ?_⟩
    by_cases hown : ownFaults fields pairs s.formula = []
    · -- It lies in a lower layer, so it has got its fault by marking, and before.
      have hr' := entry_of_mem hr
      have hs' := entry_of_mem hs
      have hneed := mem_needs.mpr ⟨.single (hr'.defines.refers href), hs'.defined⟩
      have hpos : 0 < layerOf pairs r.formula.name := by
        have hname : layerOf pairs r.formula.name = r.layer := hr'.layer.symm
        omega
      obtain ⟨hspos, hlt⟩ := layerOf_lt hpos hneed
      rw [← hs'.layer] at hspos hlt
      have hbefore : Before s r := .inl (hlt.trans_eq hr'.layer.symm)
      obtain ⟨names, -, heq⟩ := exists_mark_eq hs
      have hmarked : (mark names (unmarked fields pairs s.formula)).layer = s.layer :=
        (mark_frame (fun _ _ => rfl) _ _).trans hs'.layer.symm
      rw [markUnresolved_of_layer (by omega)] at heq
      have hv : (unmarked fields pairs s.formula).isValid = true := List.isEmpty_iff.mpr hown
      refine .inr ⟨hbefore, ?_⟩
      have hfault := exists_dependsOnInvalid_of_mark hv
        (heq.symm ▸ List.isEmpty_eq_false_iff.mpr hfaults)
      rwa [heq] at hfault
    · exact .inl hown

/-- The faults of an entry tell of its first reference to another formula with a property; they
    are `rest` if there is no such reference. -/
structure TellsFirst (r : Resolved) (p : String → Prop) (rest : List Fault) : Prop where
  told (i : Nat) (t : Token) : r.formula.FirstReference (fun n => n ≠ r.name ∧ p n) i t →
    r.faults = [.atToken i t .dependsOnInvalid]
  untold : (∀ n, r.formula.Refers n → n ≠ r.name → ¬p n) → r.faults = rest

/-- Names count only if the formula refers to them. -/
theorem TellsFirst.congr {p q : String → Prop} {rest : List Fault} (h : TellsFirst r p rest)
    (hpq : ∀ n, r.formula.Refers n → (p n ↔ q n)) : TellsFirst r q rest where
  told i t hfirst := h.told i t
    (hfirst.congr rfl fun n href => and_congr_right fun _ => (hpq n href).symm)
  untold hnone := h.untold fun n href hne hp => hnone n href hne ((hpq n href).mp hp)

/-- What the faults of an entry tell of determines them. -/
theorem TellsFirst.faults_eq {p q : String → Prop} {rest : List Fault} (h : TellsFirst r p rest)
    (k : TellsFirst s q rest) (hname : r.name = s.name) (htext : r.formula.text = s.formula.text)
    (hpq : ∀ n, r.formula.Refers n → (p n ↔ q n)) : r.faults = s.faults := by
  by_cases hsome : ∃ n, r.formula.Refers n ∧ n ≠ r.name ∧ p n
  · obtain ⟨n, href, hp⟩ := hsome
    obtain ⟨i, t, hfirst⟩ := Formula.exists_firstReference
      (p := fun n => n ≠ r.name ∧ p n) href hp
    have hother := hfirst.congr (q := fun n => n ≠ s.name ∧ q n) htext
      fun n href => and_congr (by rw [hname]) (hpq n href)
    rw [h.told i t hfirst, k.told i t hother]
  · rw [h.untold fun n href hne hp => hsome ⟨n, href, hne, hp⟩]
    refine (k.untold fun n href hne hq => ?_).symm
    have hrhref := (Formula.refers_congr htext).mpr href
    exact hsome ⟨n, hrhref, hname ▸ hne, (hpq n hrhref).mpr hq⟩

/-- The faults that marking gives to an entry without faults. -/
theorem faults_markUnresolved_mark (names : List String) (h : r.isValid = true) :
    (markUnresolved (mark names r)).faults =
      match r.formula.references.find? (leadsInto names r) with
      | some (i, t, _) => [.atToken i t .dependsOnInvalid]
      | none => if r.layer = 0 then [.ofWhole .dependsOnCircular] else [] := by
  have hnil : r.faults = [] := List.isEmpty_iff.mp h
  rw [mark, h]
  cases hfind : r.formula.references.find? (leadsInto names r) with
  | some p => exact congrArg Resolved.faults (markUnresolved_of_not_isValid rfl)
  | none =>
    by_cases hlayer : r.layer = 0
    · simp [markUnresolved, hlayer, h]
    · simp [markUnresolved, hlayer, hnil]

/-- An entry without faults of its own tells of its first reference to another formula that is
    known to have faults. -/
theorem tellsFirst_known (hr : r ∈ resolve fields pairs)
    (hown : ownFaults fields pairs r.formula = []) :
    TellsFirst r (Known fields pairs r)
      (if r.layer = 0 then [.ofWhole .dependsOnCircular] else []) := by
  obtain ⟨names, hnames, heq⟩ := exists_mark_eq hr
  have hfaults := faults_markUnresolved_mark names
    (List.isEmpty_iff.mpr hown : (unmarked fields pairs r.formula).isValid = true)
  have hlayer : (unmarked fields pairs r.formula).layer = r.layer := (entry_of_mem hr).layer.symm
  have hreferences : (unmarked fields pairs r.formula).formula.references = r.formula.references :=
    rfl
  have hleads (i : Nat) (t : Token) (n : String) :
      leadsInto names (unmarked fields pairs r.formula) (i, t, n) = true ↔
        n ≠ r.name ∧ Known fields pairs r n := by
    rw [← hnames, leadsInto, Bool.and_eq_true, decide_eq_true_eq, decide_eq_true_eq]
    rfl
  rw [heq, hlayer, hreferences] at hfaults
  -- The search of the references finds the first one into what is known, or there is none.
  cases hfind : r.formula.references.find? (leadsInto names (unmarked fields pairs r.formula)) with
  | some p =>
    rw [hfind] at hfaults
    have hfirst := Formula.firstReference_of_find? hleads hfind
    refine ⟨fun j u hju => ?_, fun hnone => ?_⟩
    · obtain ⟨rfl, rfl⟩ := hfirst.unique hju
      exact hfaults
    · exact absurd hfirst.leads.2 (hnone _ hfirst.refers hfirst.leads.1)
  | none =>
    rw [hfind] at hfaults
    have hnot {n : String} := Formula.not_refers_of_find? (n := n) hleads hfind
    exact ⟨fun j u hju => absurd hju.leads (hnot hju.refers), fun _ => hfaults⟩

/-- **Causes.** An entry whose own tokens have no faults and that has no fault of a circle has a
    fault of its references alone: of the first one to another formula that is known to have
    faults when the entry is marked. For an entry with a layer these are the formulas that have
    faults in the end, so it has no fault if it refers to none of them; an entry without a
    layer waits for a circle if it refers to none that is known. -/
theorem faults_resolve_of_clean (fields : List String) (pairs : List (String × String))
    (hr : r ∈ resolve fields pairs)
    (hclean : Fault.check (some (fields ++ (Formula.latest pairs).map Formula.name))
      r.formula.tokens = [])
    (hcircle : ∀ fault ∈ r.faults, fault.problem ≠ .circularReference ∧
      fault.problem ≠ .circularReferenceToItself) :
    TellsFirst r (Known fields pairs r)
        (if r.layer = 0 then [.ofWhole .dependsOnCircular] else []) ∧
      (r.layer ≠ 0 → TellsFirst r (Faulty fields pairs) []) := by
  -- Faults of its own would be faults of circles, since its tokens have none.
  have hown : ownFaults fields pairs r.formula = [] := by
    by_contra hne
    have hfaults := faults_eq_ownFaults hr hne
    rw [ownFaults, allowed, hclean, List.nil_append] at hne hfaults
    obtain ⟨fault, hfault⟩ := List.exists_mem_of_ne_nil _ hne
    obtain ⟨hno, hself⟩ := hcircle fault (hfaults ▸ hfault)
    exact (problem_of_mem_circleFaults hfault).elim hno hself
  have htells := tellsFirst_known hr hown
  refine ⟨htells, fun hlayer => ?_⟩
  rw [if_neg hlayer] at htells
  exact htells.congr fun n href => known_iff_faulty hr hlayer href

/-- A formula over a number and a formula with an unknown name. -/
theorem faults_resolve_of_clean_sum :
    ∃ r ∈ resolve [] [("a", "\x7bb\x7d+\x7bc\x7d"), ("b", "1"), ("c", "\x7bd\x7d")],
      r.name = "a" ∧ Fault.check (some ["a", "b", "c"]) r.formula.tokens = [] ∧
      r.faults = [.atToken 5 ⟨.reference, "c"⟩ .dependsOnInvalid] ∧ r.layer = 2 ∧
      TellsFirst r
        (Faulty [] [("a", "\x7bb\x7d+\x7bc\x7d"), ("b", "1"), ("c", "\x7bd\x7d")]) [] := by
  have hlist : (resolve [] [("a", "\x7bb\x7d+\x7bc\x7d"), ("b", "1"), ("c", "\x7bd\x7d")]).map
      (fun r => (r.formula, r.layer, r.faults)) =
        [(⟨"b", "b", "1"⟩, 1, []),
          (⟨"c", "c", "\x7bd\x7d"⟩, 1, [.atToken 1 ⟨.reference, "d"⟩ .unsupportedReferenceName]),
          (⟨"a", "a", "\x7bb\x7d+\x7bc\x7d"⟩, 2,
            [.atToken 5 ⟨.reference, "c"⟩ .dependsOnInvalid])] := by
    cbv
  have hnames : (Formula.latest
      [("a", "\x7bb\x7d+\x7bc\x7d"), ("b", "1"), ("c", "\x7bd\x7d")]).map Formula.name =
        ["a", "b", "c"] := by
    cbv
  have hclean : Fault.check (some ["a", "b", "c"]) (tokenize "\x7bb\x7d+\x7bc\x7d") = [] := by
    decide +kernel
  have hlast := List.mem_of_getElem? (congrArg (fun l => l[2]?) hlist)
  obtain ⟨r, hr, heq⟩ := List.mem_map.mp hlast
  obtain ⟨hformula, hrest⟩ := Prod.mk.inj heq
  obtain ⟨hlayer, hfaults⟩ := Prod.mk.inj hrest
  have hcheck : Fault.check (some ["a", "b", "c"]) r.formula.tokens = [] := by
    rw [hformula]
    exact hclean
  have htells := (faults_resolve_of_clean _ _ hr (by rw [hnames]; exact hcheck)
    (by rw [hfaults]; simp [Fault.atToken])).2 (by omega)
  exact ⟨r, hr, congrArg Formula.name hformula, hcheck, hfaults, hlayer, htells⟩

/-- Where formulas wait for a circle, their names decide. A formula that refers to one that
    refers to a circle does not tell of it if that one has the higher name, although it has
    faults in the end; with the names the other way round it does. -/
theorem faults_resolve_by_name :
    (∃ r ∈ resolve [] [("a", "\x7bz\x7d"), ("z", "\x7bc\x7d"), ("c", "\x7bc\x7d")],
      r.name = "a" ∧ Fault.check (some ["a", "c", "z"]) r.formula.tokens = [] ∧
      r.faults = [.ofWhole .dependsOnCircular] ∧
      ¬TellsFirst r
        (Faulty [] [("a", "\x7bz\x7d"), ("z", "\x7bc\x7d"), ("c", "\x7bc\x7d")]) []) ∧
    ∃ r ∈ resolve [] [("z", "\x7ba\x7d"), ("a", "\x7bc\x7d"), ("c", "\x7bc\x7d")],
      r.name = "z" ∧ r.faults = [.atToken 1 ⟨.reference, "a"⟩ .dependsOnInvalid] := by
  have hchain : (resolve [] [("a", "\x7bz\x7d"), ("z", "\x7bc\x7d"), ("c", "\x7bc\x7d")]).map
      (fun r => (r.formula, r.faults)) =
        [(⟨"a", "a", "\x7bz\x7d"⟩, [.ofWhole .dependsOnCircular]),
          (⟨"c", "c", "\x7bc\x7d"⟩, [.atToken 1 ⟨.reference, "c"⟩ .circularReferenceToItself]),
          (⟨"z", "z", "\x7bc\x7d"⟩, [.atToken 1 ⟨.reference, "c"⟩ .dependsOnInvalid])] := by
    cbv
  have hswapped : (resolve [] [("z", "\x7ba\x7d"), ("a", "\x7bc\x7d"), ("c", "\x7bc\x7d")]).map
      (fun r => (r.name, r.faults)) =
        [("a", [.atToken 1 ⟨.reference, "c"⟩ .dependsOnInvalid]),
          ("c", [.atToken 1 ⟨.reference, "c"⟩ .circularReferenceToItself]),
          ("z", [.atToken 1 ⟨.reference, "a"⟩ .dependsOnInvalid])] := by
    cbv
  have hclean : Fault.check (some ["a", "c", "z"]) (tokenize "\x7bz\x7d") = [] := by
    decide +kernel
  have hreferences : Formula.references ⟨"a", "a", "\x7bz\x7d"⟩ =
      [(1, ⟨.reference, "z"⟩, "z")] := by
    decide +kernel
  refine ⟨?_, ?_⟩
  · obtain ⟨r, hr, heq⟩ := List.mem_map.mp (List.mem_of_getElem? (congrArg (fun l => l[0]?) hchain))
    obtain ⟨s, hs, hseq⟩ :=
      List.mem_map.mp (List.mem_of_getElem? (congrArg (fun l => l[2]?) hchain))
    obtain ⟨hformula, hfaults⟩ := Prod.mk.inj heq
    obtain ⟨hsformula, hsfaults⟩ := Prod.mk.inj hseq
    have hname : r.name = "a" := congrArg Formula.name hformula
    refine ⟨r, hr, hname, ?_, hfaults, fun htells => ?_⟩
    · rw [hformula]
      exact hclean
    · -- The formula that it refers to has a fault, so it would have to tell of it.
      have hfaulty : "z" ≠ r.name ∧ Faulty []
          [("a", "\x7bz\x7d"), ("z", "\x7bc\x7d"), ("c", "\x7bc\x7d")] "z" :=
        ⟨by rw [hname]; decide, s, hs, congrArg Formula.name hsformula, by rw [hsfaults]; simp⟩
      have href : r.formula.Refers "z" := by
        rw [hformula, ← Formula.exists_mem_references, hreferences]
        exact ⟨1, _, List.mem_cons_self⟩
      obtain ⟨i, t, hfirst⟩ := Formula.exists_firstReference
        (p := fun n => n ≠ r.name ∧ Faulty [] _ n) href hfaulty
      have hwrong := htells.told i t hfirst
      rw [hfaults] at hwrong
      simp [Fault.ofWhole, Fault.atToken] at hwrong
  · obtain ⟨r, hr, heq⟩ :=
      List.mem_map.mp (List.mem_of_getElem? (congrArg (fun l => l[2]?) hswapped))
    exact ⟨r, hr, Prod.mk.inj heq⟩

end Resolution

end Formulary
