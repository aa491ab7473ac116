/-
  Formulary.Proofs.Locality

  Resolving is local: the entry of a formula depends on the formulas that it reaches and on
  nothing else that is defined (`resolve_eq_of_agree`).

  Two lists of pairs `Agree` from a name on if they give the same text to the name and to
  every name that it reaches, or none. Step by step this carries over to all that an entry
  is made of: to chains of references, to needs and layers, to the faults of tokens and of
  circles. Marks come last. A mark depends on the entries before, so the two runs are
  compared entry by entry in the order in which they are marked (`faults_eq`).
-/

import Formulary.Proofs.LowerCase
import Formulary.Proofs.Marking

namespace Formulary

/-! ## Allowed names -/

namespace Fault

variable {names others : List String} {t : Token} {ts : List Token}

theorem problems_congr (before after : Option Kind) (opened : List Opening)
    (h : t.kind = .reference → (Text.lower t.text ∈ names ↔ Text.lower t.text ∈ others)) :
    problems (some names) before after opened t = problems (some others) before after opened t := by
  obtain ⟨k, s⟩ := t
  cases k with
  | reference => simp [problems, h rfl]
  | _ => rfl

/-- The check asks of a list of allowed names only which references it holds. -/
theorem check_congr (h : ∀ t ∈ ts, t.kind = .reference →
    (Text.lower t.text ∈ names.map Text.lower ↔ Text.lower t.text ∈ others.map Text.lower)) :
    check (some names) ts = check (some others) ts := by
  have hfrom : ∀ (us : List Token), (∀ t ∈ us, t ∈ ts) → ∀ index before opened,
      checkFrom (some (names.map Text.lower)) index before opened us =
        checkFrom (some (others.map Text.lower)) index before opened us := by
    intro us
    induction us with
    | nil => exact fun _ _ _ _ => rfl
    | cons t us ih =>
      intro hus index before opened
      obtain ⟨ht, hrest⟩ := List.forall_mem_cons.mp hus
      rw [checkFrom, checkFrom, problems_congr _ _ _ (h t ht), ih hrest]
  exact hfrom ts (fun _ ht => ht) 0 none []

end Fault

namespace Resolution

variable {fields : List String} {pairs others : List (String × String)} {n m : String}

/-- A name in lower case may be referred to if a field has it or if it is defined. -/
theorem mem_map_lower_allowed (s : String) :
    Text.lower s ∈ (allowed fields pairs).map Text.lower ↔
      Text.lower s ∈ fields.map Text.lower ∨ Defined pairs (Text.lower s) := by
  rw [allowed, List.map_append, List.mem_append]
  refine or_congr_right ⟨?_, ?_⟩
  · intro h
    obtain ⟨n, hn, hlower⟩ := List.mem_map.mp h
    obtain ⟨f, hf, rfl⟩ := mem_name_latest.mp hn
    -- The names of formulas are in lower case already.
    rw [hf.name_eq, Text.lower_lower] at hlower
    exact ⟨f, hf, hf.name_eq.trans hlower⟩
  · intro h
    have hmem := List.mem_map_of_mem (f := Text.lower) (mem_name_latest.mpr h)
    rwa [Text.lower_lower] at hmem

/-! ## Agreement -/

/-- The two lists of pairs give the same text to a name, or none. -/
def SameText (pairs others : List (String × String)) (n : String) : Prop :=
  ¬Defined pairs n ∧ ¬Defined others n ∨
    ∃ f g, Defines pairs f ∧ Defines others g ∧ f.name = n ∧ g.name = n ∧ f.text = g.text

/-- The second name is the first one, or reached by it. -/
def Relevant (pairs : List (String × String)) (n m : String) : Prop := m = n ∨ Reaches pairs n m

/-- The two lists of pairs give the same texts to a name and to all names that it reaches. -/
def Agree (pairs others : List (String × String)) (n : String) : Prop :=
  ∀ m, Relevant pairs n m → SameText pairs others m

namespace SameText

theorem symm (h : SameText pairs others n) : SameText others pairs n := by
  rcases h with ⟨hp, ho⟩ | ⟨f, g, hf, hg, hfn, hgn, htext⟩
  · exact .inl ⟨ho, hp⟩
  · exact .inr ⟨g, f, hg, hf, hgn, hfn, htext.symm⟩

theorem defined_iff (h : SameText pairs others n) : Defined pairs n ↔ Defined others n := by
  rcases h with ⟨hp, ho⟩ | ⟨f, g, hf, hg, hfn, hgn, -⟩
  · exact iff_of_false hp ho
  · exact iff_of_true ⟨f, hf, hfn⟩ ⟨g, hg, hgn⟩

theorem text_eq (h : SameText pairs others n) {f g : Formula} (hf : Defines pairs f)
    (hg : Defines others g) (hfn : f.name = n) (hgn : g.name = n) : f.text = g.text := by
  rcases h with ⟨hp, -⟩ | ⟨f', g', hf', hg', hfn', hgn', htext⟩
  · exact absurd ⟨f, hf, hfn⟩ hp
  · rw [hf.unique hf' (hfn.trans hfn'.symm), hg.unique hg' (hgn.trans hgn'.symm), htext]

theorem refers (h : SameText pairs others n) (hm : Refers pairs n m) : Refers others n m := by
  obtain ⟨f, hf, hfn, href⟩ := hm
  obtain ⟨g, hg, hgn⟩ := h.defined_iff.mp ⟨f, hf, hfn⟩
  exact ⟨g, hg, hgn, (Formula.refers_congr (h.text_eq hf hg hfn hgn)).mp href⟩

end SameText

namespace Agree

theorem same (h : Agree pairs others n) : SameText pairs others n := h n (.inl rfl)

theorem of_reaches (h : Agree pairs others n) (hm : Reaches pairs n m) : Agree pairs others m := by
  rintro k (rfl | hk)
  · exact h k (.inr hm)
  · exact h k (.inr (hm.trans hk))

theorem reaches (h : Agree pairs others n) (hm : Reaches pairs n m) : Reaches others n m := by
  induction hm using Relation.TransGen.head_induction_on with
  | single hm => exact .single (h.same.refers hm)
  | head hk _ ih => exact .head (h.same.refers hk) (ih (h.of_reaches (.single hk)))

/-- A chain in the other list is a chain in the first one, name by name. -/
theorem reaches_of_reaches (h : Agree pairs others n) (hm : Reaches others n m) :
    Reaches pairs n m := by
  induction hm using Relation.TransGen.head_induction_on with
  | single hm => exact .single (h.same.symm.refers hm)
  | head hk _ ih =>
    have hfirst := h.same.symm.refers hk
    exact .head hfirst (ih (h.of_reaches (.single hfirst)))

theorem symm (h : Agree pairs others n) : Agree others pairs n := by
  rintro m (rfl | hm)
  · exact h.same.symm
  · exact (h m (.inr (h.reaches_of_reaches hm))).symm

theorem reaches_iff (h : Agree pairs others n) : Reaches pairs n m ↔ Reaches others n m :=
  ⟨h.reaches, h.reaches_of_reaches⟩

theorem entangled (h : Agree pairs others n) (hn : Entangled pairs n) : Entangled others n := by
  rcases hn with hn | ⟨m, hm, hmm⟩
  · exact .inl (h.reaches hn)
  · exact .inr ⟨m, h.reaches hm, (h.of_reaches hm).reaches hmm⟩

/-! ## Needs and layers -/

theorem needs_eq (h : Agree pairs others n) : needs pairs n = needs others n := by
  have hmem (m : String) : m ∈ needs pairs n ↔ m ∈ needs others n := by
    rw [mem_needs, mem_needs, ← h.reaches_iff]
    exact and_congr_right fun hm => (h m (.inr hm)).defined_iff
  -- Both are in order.
  have hnodup {ps : List (String × String)} := Names.nodup_of_pairwise (pairwise_needs ps n)
  refine List.Perm.eq_of_pairwise ?_ (pairwise_needs pairs n) (pairwise_needs others n)
    ((List.perm_ext_iff_of_nodup hnodup hnodup).mpr hmem)
  intro a b _ _ hab hba
  exact absurd (String.lt_trans hab hba) (String.lt_irrefl a)

theorem referenceChain (h : Agree pairs others n) {c : List String}
    (hc : ReferenceChain pairs n c) : ReferenceChain others n c := by
  induction c generalizing n with
  | nil => exact nomatch hc.head
  | cons a rest ih =>
    obtain rfl : a = n := by simpa using hc.head
    have ha := h.same.defined_iff.mp (hc.defined a List.mem_cons_self)
    cases rest with
    | nil => exact ⟨rfl, by simpa using ha, List.isChain_singleton a⟩
    | cons b rest =>
      obtain ⟨hab, hrest⟩ := List.isChain_cons_cons.mp hc.refers
      have htail := ih (h.of_reaches (.single hab))
        ⟨rfl, fun m hm => hc.defined m (List.mem_cons_of_mem a hm), hrest⟩
      refine ⟨rfl, ?_, List.isChain_cons_cons.mpr ⟨h.same.refers hab, htail.refers⟩⟩
      exact List.forall_mem_cons.mpr ⟨ha, htail.defined⟩

/-- The longest chain of the one list is a chain of the other. -/
theorem layerOf_le (h : Agree pairs others n) (hn : Defined pairs n) :
    layerOf pairs n ≤ layerOf others n := by
  rcases Nat.eq_zero_or_pos (layerOf pairs n) with hzero | hpos
  · omega
  · have hother := h.same.defined_iff.mp hn
    have hopos : 0 < layerOf others n := by
      refine layerOf_pos hother fun he => ?_
      have := (layerOf_eq_zero_iff hn).mpr (h.symm.entangled he)
      omega
    obtain ⟨c, hc, hlen⟩ := exists_referenceChain hn hpos
    exact hlen ▸ length_le_layerOf (h.referenceChain hc) hopos

theorem layerOf_eq (h : Agree pairs others n) (hn : Defined pairs n) :
    layerOf pairs n = layerOf others n :=
  Nat.le_antisymm (h.layerOf_le hn) (h.symm.layerOf_le (h.same.defined_iff.mp hn))

/-! ## Faults of their own -/

theorem circleFaults_eq {f g : Formula} (h : Agree pairs others f.name)
    (hf : Defines pairs f) (hname : f.name = g.name) (htext : f.text = g.text) :
    circleFaults (graph (Formula.latest pairs)) f = circleFaults (graph (Formula.latest others)) g := by
  have hreferences : g.references = f.references := by
    rw [Formula.references, Formula.references, Formula.tokens, Formula.tokens, htext]
  rw [circleFaults, circleFaults, hreferences, ← hname]
  refine List.filterMap_congr ?_
  rintro ⟨i, t, m⟩ hmem
  have hm : Reaches pairs f.name m :=
    .single (hf.refers (Formula.exists_mem_references.mp ⟨i, t, hmem⟩))
  have hback : f.name ∈ (graph (Formula.latest pairs)).reachable m ↔
      f.name ∈ (graph (Formula.latest others)).reachable m := by
    rw [mem_reachable_graph, mem_reachable_graph, (h.of_reaches hm).reaches_iff]
  simp only [hback]

theorem ownFaults_eq {f g : Formula} (h : Agree pairs others f.name) (hf : Defines pairs f)
    (hname : f.name = g.name) (htext : f.text = g.text) :
    ownFaults fields pairs f = ownFaults fields others g := by
  have htokens : g.tokens = f.tokens := by rw [Formula.tokens, Formula.tokens, htext]
  have hcheck : Fault.check (some (allowed fields pairs)) f.tokens =
      Fault.check (some (allowed fields others)) f.tokens := by
    refine Fault.check_congr fun t ht hk => ?_
    rw [mem_map_lower_allowed, mem_map_lower_allowed]
    have hm : Refers pairs f.name (Text.lower t.text) := hf.refers ⟨t, ht, hk, rfl⟩
    exact or_congr_right (h _ (.inr (.single hm))).defined_iff
  rw [ownFaults, ownFaults, hcheck, htokens, h.circleFaults_eq hf hname htext]

end Agree

/-! ## Marks -/

/-- Entries of one name in two runs, the lists of pairs agreeing from the name on. -/
structure Counterparts (fields : List String) (pairs others : List (String × String))
    (r s : Resolved) : Prop where
  left : r ∈ resolve fields pairs
  right : s ∈ resolve fields others
  name_eq : r.name = s.name
  agree : Agree pairs others r.name

/-- What is known of a formula that has an entry is known of this entry. -/
theorem known_name_iff {r s : Resolved} (hs : s ∈ resolve fields pairs) :
    Known fields pairs r s.name ↔ ownFaults fields pairs s.formula ≠ [] ∨
      Before s r ∧ ∃ fault ∈ s.faults, fault.problem = .dependsOnInvalid := by
  constructor
  · rintro ⟨u, hu, hname, h⟩
    rwa [eq_of_name_eq hu hs hname] at h
  · exact fun h => ⟨s, hs, rfl, h⟩

namespace Counterparts

variable {r s u v : Resolved}

theorem text_eq (h : Counterparts fields pairs others r s) : r.formula.text = s.formula.text :=
  h.agree.same.text_eq (entry_of_mem h.left).defines (entry_of_mem h.right).defines rfl
    h.name_eq.symm

theorem dependencies_eq (h : Counterparts fields pairs others r s) :
    r.dependencies = s.dependencies := by
  rw [(entry_of_mem h.left).dependencies, (entry_of_mem h.right).dependencies, ← h.name_eq,
    h.agree.needs_eq]

theorem layer_eq (h : Counterparts fields pairs others r s) : r.layer = s.layer := by
  have hr := entry_of_mem h.left
  rw [hr.layer, (entry_of_mem h.right).layer, ← h.name_eq, h.agree.layerOf_eq hr.defined]

theorem ownFaults_eq (h : Counterparts fields pairs others r s) :
    ownFaults fields pairs r.formula = ownFaults fields others s.formula :=
  Agree.ownFaults_eq h.agree (entry_of_mem h.left).defines h.name_eq h.text_eq

/-- Counterparts stand in the same order. -/
theorem before_iff (h : Counterparts fields pairs others r s)
    (k : Counterparts fields pairs others u v) : Before u r ↔ Before v s := by
  rw [Before, Before, h.layer_eq, k.layer_eq, h.name_eq, k.name_eq]

/-- Where entries before have the faults of their counterparts, the same is known of a
    reference. -/
theorem known_iff (h : Counterparts fields pairs others r s)
    (ih : ∀ u ∈ resolve fields pairs, Before u r →
      ∀ v, Counterparts fields pairs others u v → u.faults = v.faults)
    (href : r.formula.Refers n) : Known fields pairs r n ↔ Known fields others s n := by
  have hn : Agree pairs others n :=
    h.agree.of_reaches (.single ((entry_of_mem h.left).defines.refers href))
  by_cases hdefined : Defined pairs n
  · obtain ⟨u, hu, rfl⟩ := exists_mem_resolve fields hdefined
    obtain ⟨v, hv, hname⟩ := exists_mem_resolve fields (hn.same.defined_iff.mp hdefined)
    have k : Counterparts fields pairs others u v := ⟨hu, hv, hname.symm, hn⟩
    rw [known_name_iff hu, ← hname, known_name_iff hv, k.ownFaults_eq, ← h.before_iff k]
    exact or_congr_right (and_congr_right fun hbefore => by rw [ih u hu hbefore v k])
  · -- What is not defined has no entry.
    have hother := fun hd => hdefined (hn.same.defined_iff.mpr hd)
    refine iff_of_false ?_ ?_
    · rintro ⟨u, hu, rfl, -⟩
      exact hdefined (entry_of_mem hu).defined
    · rintro ⟨v, hv, rfl, -⟩
      exact hother (entry_of_mem hv).defined

/-- **Marks.** Counterparts have the same faults. The induction goes along the order in which
    the entries are marked. -/
theorem faults_eq (h : Counterparts fields pairs others r s) : r.faults = s.faults := by
  refine forall_of_before (pairwise_before_resolve fields pairs)
    (p := fun r => ∀ s, Counterparts fields pairs others r s → r.faults = s.faults) ?_ r h.left s h
  intro r _ ih s h
  by_cases hown : ownFaults fields pairs r.formula = []
  · have hother : ownFaults fields others s.formula = [] := h.ownFaults_eq ▸ hown
    have hleft := tellsFirst_known h.left hown
    rw [h.layer_eq] at hleft
    exact hleft.faults_eq (tellsFirst_known h.right hother) h.name_eq h.text_eq
      fun n href => h.known_iff ih href
  · rw [faults_eq_ownFaults h.left hown, h.ownFaults_eq,
      faults_eq_ownFaults h.right (h.ownFaults_eq ▸ hown)]

theorem eq (h : Counterparts fields pairs others r s) (hformula : r.formula = s.formula) :
    r = s := by
  have hdependencies := h.dependencies_eq
  have hlayer := h.layer_eq
  have hfaults := h.faults_eq
  cases r
  cases s
  simp only at hformula hdependencies hlayer hfaults
  rw [hformula, hdependencies, hlayer, hfaults]

end Counterparts

/-! ## Entries -/

/-- The name has an entry, and the same one, in both runs. -/
def SameEntry (fields : List String) (pairs others : List (String × String)) (n : String) :
    Prop :=
  ∃ r, (∀ s, s ∈ resolve fields pairs ∧ s.name = n ↔ s = r) ∧
    ∀ s, s ∈ resolve fields others ∧ s.name = n ↔ s = r

theorem mem_and_name_iff {r s : Resolved} (hr : r ∈ resolve fields pairs) :
    s ∈ resolve fields pairs ∧ s.name = r.name ↔ s = r := by
  constructor
  · rintro ⟨hs, hname⟩
    exact eq_of_name_eq hs hr hname
  · rintro rfl
    exact ⟨hr, rfl⟩

theorem sameEntry_of_agree {f : Formula} (hf : Defines pairs f) (hg : Defines others f)
    (h : Agree pairs others f.name) : SameEntry fields pairs others f.name := by
  obtain ⟨r, hr, rfl⟩ : ∃ r ∈ resolve fields pairs, r.formula = f :=
    exists_mem_resolve_iff.mpr hf
  obtain ⟨s, hs, hformula⟩ : ∃ s ∈ resolve fields others, s.formula = r.formula :=
    exists_mem_resolve_iff.mpr hg
  have hname : r.name = s.name := congrArg Formula.name hformula.symm
  obtain rfl : r = s := Counterparts.eq ⟨hr, hs, hname, h⟩ hformula.symm
  exact ⟨r, fun _ => mem_and_name_iff hr, fun _ => mem_and_name_iff hs⟩

/-! ## Pairs that matter -/

/-- Leaving out pairs of other names does not change what a name is defined as. -/
theorem defines_filter_iff (keep : String → Bool) {f : Formula} (h : keep f.name = true) :
    Defines (pairs.filter fun p => keep (Text.lower p.1)) f ↔ Defines pairs f := by
  have hall : allFormulas (pairs.filter fun p => keep (Text.lower p.1)) =
      (allFormulas pairs).filter fun g => keep g.name := by
    rw [allFormulas, allFormulas, List.filter_reverse, List.filter_map]
    rfl
  have hfind : (allFormulas (pairs.filter fun p => keep (Text.lower p.1))).find?
      (fun g => g.name = f.name) = (allFormulas pairs).find? fun g => g.name = f.name := by
    rw [hall, List.find?_filter]
    congr 1
    funext g
    by_cases hg : g.name = f.name
    · simp [hg, h]
    · simp [hg]
  have hiff {ps : List (String × String)} :
      (allFormulas ps).find? (fun g => g.name = f.name) = some f ↔ Defines ps f :=
    find?_allFormulas_eq_some_iff.trans (and_iff_left rfl)
  rw [← hiff, hfind, hiff]

section Filter

open Classical

/-- Of the pairs `ps` those of relevant names. -/
noncomputable def relevant (pairs : List (String × String)) (n : String)
    (ps : List (String × String)) : List (String × String) :=
  ps.filter fun p => Relevant pairs n (Text.lower p.1)

/-- Lists with the same relevant pairs define the same relevant formulas. -/
theorem defines_iff_of_relevant_eq (h : relevant pairs n pairs = relevant pairs n others)
    {f : Formula} (hf : Relevant pairs n f.name) : Defines pairs f ↔ Defines others f := by
  have hkeep : decide (Relevant pairs n f.name) = true := decide_eq_true hf
  have hpairs : Defines (relevant pairs n pairs) f ↔ Defines pairs f :=
    defines_filter_iff (fun m => Relevant pairs n m) hkeep
  have hothers : Defines (relevant pairs n others) f ↔ Defines others f :=
    defines_filter_iff (fun m => Relevant pairs n m) hkeep
  rw [← hpairs, h, hothers]

theorem agree_of_relevant_eq (h : relevant pairs n pairs = relevant pairs n others) :
    Agree pairs others n := by
  intro m hm
  have hdefines {f : Formula} (hname : f.name = m) : Defines pairs f ↔ Defines others f :=
    defines_iff_of_relevant_eq h (by rwa [hname])
  by_cases hdefined : Defined pairs m
  · obtain ⟨f, hf, hname⟩ := hdefined
    exact .inr ⟨f, f, hf, (hdefines hname).mp hf, hname, hname, rfl⟩
  · refine .inl ⟨hdefined, ?_⟩
    rintro ⟨f, hf, hname⟩
    exact hdefined ⟨f, (hdefines hname).mpr hf, hname⟩

end Filter

/-- **Locality.** A formula has the same entry in two runs if the lists of pairs agree from its
    name on: what else they define, and in which order, makes no difference. In particular the
    entry stays as it is if pairs are added, left out or changed that are neither its own
    nor those of names that it reaches. -/
theorem resolve_eq_of_agree (fields : List String) (pairs others : List (String × String))
    (n : String) :
    (∀ f, f.name = n → Defines pairs f → Defines others f → Agree pairs others n →
        SameEntry fields pairs others n) ∧
      (Defined pairs n → relevant pairs n pairs = relevant pairs n others →
        SameEntry fields pairs others n) := by
  constructor
  · rintro f rfl hf hg h
    exact sameEntry_of_agree hf hg h
  · rintro ⟨f, hf, rfl⟩ h
    exact sameEntry_of_agree hf ((defines_iff_of_relevant_eq h (.inl rfl)).mp hf)
      (agree_of_relevant_eq h)

/-- A formula over a circle, beside a number in one list and a sum over the formula in the
    other. -/
theorem resolve_eq_of_agree_circle :
    SameEntry [] [("A", "\x7bc\x7d"), ("c", "\x7bc\x7d"), ("b", "1")]
      [("b", "\x7ba\x7d+\x7bx\x7d"), ("c", "2"), ("c", "\x7bc\x7d"), ("A", "\x7bc\x7d")] "a" ∧
    SameEntry [] [("A", "\x7bc\x7d"), ("c", "\x7bc\x7d"), ("b", "1")]
      [("b", "\x7ba\x7d+\x7bx\x7d"), ("A", "\x7bc\x7d"), ("c", "\x7bc\x7d")] "a" := by
  have hreachable : (graph (Formula.latest
      [("A", "\x7bc\x7d"), ("c", "\x7bc\x7d"), ("b", "1")])).reachable "a" = ["c"] := by
    cbv
  have hlatest : Formula.latest [("A", "\x7bc\x7d"), ("c", "\x7bc\x7d"), ("b", "1")] =
      [⟨"a", "A", "\x7bc\x7d"⟩, ⟨"b", "b", "1"⟩, ⟨"c", "c", "\x7bc\x7d"⟩] := by
    cbv
  have hother : Formula.latest [("b", "\x7ba\x7d+\x7bx\x7d"), ("c", "2"), ("c", "\x7bc\x7d"),
      ("A", "\x7bc\x7d")] = [⟨"a", "A", "\x7bc\x7d"⟩, ⟨"b", "b", "\x7ba\x7d+\x7bx\x7d"⟩,
        ⟨"c", "c", "\x7bc\x7d"⟩] := by
    cbv
  have hrelevant (m : String) :
      Relevant [("A", "\x7bc\x7d"), ("c", "\x7bc\x7d"), ("b", "1")] "a" m ↔ m = "a" ∨ m = "c" := by
    rw [Relevant, ← mem_reachable_graph, hreachable, List.mem_singleton]
  refine ⟨?_, ?_⟩
  · refine (resolve_eq_of_agree _ _ _ _).1 ⟨"a", "A", "\x7bc\x7d"⟩ rfl ?_ ?_ fun m hm => ?_
    · rw [← mem_latest, hlatest]
      decide
    · rw [← mem_latest, hother]
      decide
    · right
      rcases (hrelevant m).mp hm with rfl | rfl
      · refine ⟨⟨"a", "A", "\x7bc\x7d"⟩, ⟨"a", "A", "\x7bc\x7d"⟩, ?_⟩
        simp [← mem_latest, hlatest, hother]
      · refine ⟨⟨"c", "c", "\x7bc\x7d"⟩, ⟨"c", "c", "\x7bc\x7d"⟩, ?_⟩
        simp [← mem_latest, hlatest, hother]
  · refine (resolve_eq_of_agree _ _ _ _).2 ?_ ?_
    · rw [← mem_name_latest, hlatest]
      decide
    · rw [relevant, relevant]
      simp only [hrelevant]
      decide +kernel

end Resolution

end Formulary
