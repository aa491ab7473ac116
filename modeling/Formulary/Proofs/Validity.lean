/-
  Formulary.Proofs.Validity

  Which entries have no faults.

  Marking goes through the entries once, in the order of their layers, and looks at direct
  references only. `mark_mem_resolve` says that this is enough: an entry that has a layer
  is marked as if all other marks were already known, because everything it refers to lies
  in a lower layer and has been visited. An entry without a layer has a fault in any case.
  From both, by induction along the layers, an entry has no faults if and only if it is not
  entangled and neither its own tokens nor those of its dependencies have any
  (`faults_resolve_eq_nil_iff`).
-/

import Formulary.Proofs.Entries

namespace Formulary

namespace Resolution

variable {fields : List String} {pairs : List (String × String)} {r : Resolved}

/-! ## Faults of circles -/

/-- A formula has faults of circles if and only if it lies on one. -/
theorem circleFaults_eq_nil_iff {f : Formula} (hf : Defines pairs f) :
    circleFaults (graph (Formula.latest pairs)) f = [] ↔ ¬Reaches pairs f.name f.name := by
  rw [circleFaults, List.filterMap_eq_nil_iff]
  constructor
  · intro h hcircle
    -- The first reference of the circle has a fault.
    obtain ⟨m, hm, hback⟩ := Relation.TransGen.head'_iff.mp hcircle
    obtain ⟨i, t, hmem⟩ := Formula.exists_mem_references.mpr (hf.refers_iff.mp hm)
    have hnone := h _ hmem
    rcases Relation.reflTransGen_iff_eq_or_transGen.mp hback with heq | hback
    · simp [heq] at hnone
    · have hin : f.name ∈ (graph (Formula.latest pairs)).reachable m :=
        mem_reachable_graph.mpr hback
      simp only [hin, if_true] at hnone
      split at hnone <;> exact Option.some_ne_none _ hnone
  · rintro h ⟨i, t, m⟩ hmem
    have hm : Refers pairs f.name m := hf.refers (Formula.exists_mem_references.mp ⟨i, t, hmem⟩)
    have hne : m ≠ f.name := by
      rintro rfl
      exact h (.single hm)
    have hnot : f.name ∉ (graph (Formula.latest pairs)).reachable m :=
      fun hback => h (.head hm (mem_reachable_graph.mp hback))
    simp only [if_neg hne, if_neg hnot]

/-- The tokens of the formulas with a name have no faults, references to fields and to each
    other being allowed. -/
def Clean (fields : List String) (pairs : List (String × String)) (n : String) : Prop :=
  ∀ f, Defines pairs f → f.name = n → Fault.check (some (allowed fields pairs)) f.tokens = []

theorem Defines.clean_iff {f : Formula} (hf : Defines pairs f) :
    Clean fields pairs f.name ↔ Fault.check (some (allowed fields pairs)) f.tokens = [] := by
  constructor
  · intro h
    exact h f hf rfl
  · intro h g hg hname
    rwa [hg.unique hf hname]

theorem Entry.clean_iff (h : Entry pairs r) :
    Clean fields pairs r.name ↔
      Fault.check (some (allowed fields pairs)) r.formula.tokens = [] := h.defines.clean_iff

theorem isValid_unmarked_iff {f : Formula} (hf : Defines pairs f) :
    (unmarked fields pairs f).isValid = true ↔
      Clean fields pairs f.name ∧ ¬Reaches pairs f.name f.name := by
  rw [hf.clean_iff, ← circleFaults_eq_nil_iff hf, Resolved.isValid, List.isEmpty_iff]
  exact List.append_eq_nil_iff

/-! ## Marks -/

theorem mem_broken {rs : List Resolved} {n : String} :
    n ∈ broken rs ↔ ∃ r ∈ rs, r.isValid = false ∧ r.name = n := by
  simp only [broken, List.mem_map, List.mem_filter, Bool.not_eq_true', and_assoc]

theorem broken_append (rs ss : List Resolved) : broken (rs ++ ss) = broken rs ++ broken ss := by
  simp [broken]

theorem mark_of_not_isValid (names : List String) (h : r.isValid = false) : mark names r = r := by
  simp [mark, h]

/-- Only names that the formula refers to count. -/
theorem mark_congr {names others : List String}
    (h : ∀ n, r.formula.Refers n → n ≠ r.name → (n ∈ names ↔ n ∈ others)) :
    mark names r = mark others r := by
  have hfind : r.formula.references.find? (leadsInto names r) =
      r.formula.references.find? (leadsInto others r) := by
    apply List.find?_congr
    rintro ⟨i, t, n⟩ hmem
    have hn := h n (Formula.exists_mem_references.mp ⟨i, t, hmem⟩)
    by_cases hne : n = r.name
    · simp [leadsInto, hne]
    · simp [leadsInto, hne, hn hne]
  rw [mark, hfind, mark]

/-- A formula keeps no faults if it refers to no other formula with faults. -/
theorem isValid_mark_iff {names : List String} :
    (mark names r).isValid = true ↔
      r.isValid = true ∧ ∀ n, r.formula.Refers n → n ≠ r.name → n ∉ names := by
  have hnone : (∀ n, r.formula.Refers n → n ≠ r.name → n ∉ names) ↔
      r.formula.references.find? (leadsInto names r) = none := by
    rw [List.find?_eq_none]
    constructor
    · rintro h ⟨i, t, n⟩ hmem
      have hn := h n (Formula.exists_mem_references.mp ⟨i, t, hmem⟩)
      simpa [leadsInto] using hn
    · intro h n href hne
      obtain ⟨i, t, hmem⟩ := Formula.exists_mem_references.mpr href
      simpa [leadsInto, hne] using h _ hmem
  rw [hnone, mark]
  cases hv : r.isValid with
  | false => simp [hv]
  | true =>
    cases hfind : r.formula.references.find? (leadsInto names r) with
    | none => simp [hv]
    | some p => simp [Resolved.isValid]

/-- Formulas are marked by what has faults before them. -/
theorem markFrom_append (names : List String) (rs ss : List Resolved) :
    markFrom names (rs ++ ss) =
      markFrom names rs ++ markFrom (names ++ broken (markFrom names rs)) ss := by
  induction rs generalizing names with
  | nil => simp [markFrom, broken]
  | cons r rs ih =>
    have hcons : markFrom names (r :: rs) =
        [mark names r] ++ markFrom (names ++ broken [mark names r]) rs := rfl
    rw [List.cons_append, markFrom, ih, hcons, broken_append, List.append_assoc,
      List.append_assoc, List.singleton_append]

/-- A formula that has faults to begin with keeps them. -/
theorem mem_markFrom_of_not_isValid {rs : List Resolved} (names : List String)
    (hr : r ∈ rs) (h : r.isValid = false) : r ∈ markFrom names rs := by
  obtain ⟨before, after, rfl⟩ := List.append_of_mem hr
  rw [markFrom_append, markFrom, mark_of_not_isValid _ h]
  simp

theorem markUnresolved_of_not_isValid (h : r.isValid = false) : markUnresolved r = r := by
  simp [markUnresolved, h]

theorem markUnresolved_of_layer (h : r.layer ≠ 0) : markUnresolved r = r := by
  simp [markUnresolved, h]

/-- A formula without a layer has faults in any case. -/
theorem isValid_markUnresolved_of_layer (h : r.layer = 0) : (markUnresolved r).isValid = false := by
  rw [markUnresolved]
  cases hv : r.isValid with
  | false => simp [hv]
  | true => simp [h, Resolved.isValid]

/-! ## Marks in the order of layers -/

/-- The entries as they are marked, before those without a layer are looked at. -/
def marked (fields : List String) (pairs : List (String × String)) : List Resolved :=
  markFrom (broken (ordered fields pairs)) (ordered fields pairs)

theorem mem_resolve {r : Resolved} :
    r ∈ resolve fields pairs ↔ ∃ s ∈ marked fields pairs, markUnresolved s = r := by
  rw [resolve_eq, List.mem_map, marked]

theorem mem_resolve_of_not_isValid (hr : r ∈ marked fields pairs) (h : r.isValid = false) :
    r ∈ resolve fields pairs :=
  mem_resolve.mpr ⟨r, hr, markUnresolved_of_not_isValid h⟩

/-- An entry with a layer is left as it is marked. -/
theorem mem_marked_iff_of_layer (h : r.layer ≠ 0) :
    r ∈ marked fields pairs ↔ r ∈ resolve fields pairs := by
  constructor
  · intro hr
    exact mem_resolve.mpr ⟨r, hr, markUnresolved_of_layer h⟩
  · intro hr
    obtain ⟨s, hs, rfl⟩ := mem_resolve.mp hr
    have hlayer : (markUnresolved s).layer = s.layer := markUnresolved_frame (fun _ _ => rfl) s
    rwa [markUnresolved_of_layer (hlayer ▸ h)]

theorem isValid_of_layer_eq_zero (hr : r ∈ resolve fields pairs) (h : r.layer = 0) :
    r.isValid = false := by
  obtain ⟨s, hs, rfl⟩ := mem_resolve.mp hr
  have hlayer : (markUnresolved s).layer = s.layer := markUnresolved_frame (fun _ _ => rfl) s
  exact isValid_markUnresolved_of_layer (hlayer ▸ h)

/-- Marked entries are entries that have been marked by some names. -/
theorem exists_mark_of_mem_markFrom {names : List String} {rs : List Resolved}
    (h : r ∈ markFrom names rs) : ∃ t ∈ rs, ∃ others, mark others t = r := by
  induction rs generalizing names with
  | nil => exact nomatch h
  | cons t rs ih =>
    rcases List.mem_cons.mp h with rfl | h
    · exact ⟨t, List.mem_cons_self, names, rfl⟩
    · obtain ⟨u, hu, hmark⟩ := ih h
      exact ⟨u, List.mem_cons_of_mem t hu, hmark⟩

section Turn

variable {f : Formula} {before after : List Resolved}

/-- The turn of a formula: the entries before it and behind it. -/
theorem exists_turn (fields : List String) (hf : Defines pairs f) :
    ∃ before after, ordered fields pairs = before ++ unmarked fields pairs f :: after :=
  List.append_of_mem (mem_ordered.mpr ⟨f, hf, rfl⟩)

/-- What is marked when the turn of a formula comes is marked in the end. -/
theorem marked_eq_of_turn
    (hturn : ordered fields pairs = before ++ unmarked fields pairs f :: after) :
    marked fields pairs = markFrom (broken (ordered fields pairs)) before ++
      markFrom (broken (ordered fields pairs) ++
        broken (markFrom (broken (ordered fields pairs)) before))
        (unmarked fields pairs f :: after) := by
  rw [marked, ← markFrom_append, ← hturn]

/-- What does not come from the formula or from behind it is marked before its turn. -/
theorem mem_markFrom_of_turn
    (hturn : ordered fields pairs = before ++ unmarked fields pairs f :: after)
    (hr : r ∈ marked fields pairs)
    (hnot : ∀ t ∈ unmarked fields pairs f :: after, ∀ names, mark names t ≠ r) :
    r ∈ markFrom (broken (ordered fields pairs)) before := by
  rw [marked_eq_of_turn hturn, List.mem_append] at hr
  refine hr.resolve_right fun hr => ?_
  obtain ⟨t, ht, names, hmark⟩ := exists_mark_of_mem_markFrom hr
  exact hnot t ht names hmark

/-- In the order of layers, entries of lower layers stand before. -/
theorem mem_markFrom_of_layer_lt
    (hturn : ordered fields pairs = before ++ unmarked fields pairs f :: after)
    (hr : r ∈ marked fields pairs) (hlt : r.layer < layerOf pairs f.name) :
    r ∈ markFrom (broken (ordered fields pairs)) before := by
  refine mem_markFrom_of_turn hturn hr ?_
  rintro t ht names rfl
  have hlayer : (mark names t).layer = t.layer := mark_frame (fun _ _ => rfl) _ _
  have hsorted := pairwise_layer_ordered fields pairs
  rw [hturn, List.pairwise_append, List.pairwise_cons] at hsorted
  have hle : layerOf pairs f.name ≤ t.layer := by
    rcases List.mem_cons.mp ht with rfl | ht
    · exact Nat.le_refl _
    · exact hsorted.2.1.1 t ht
  omega

/-- What has faults when the turn of a formula comes has them in the end. -/
theorem mem_broken_resolve_of_turn
    (hturn : ordered fields pairs = before ++ unmarked fields pairs f :: after) {n : String}
    (hn : n ∈ broken (ordered fields pairs) ++
      broken (markFrom (broken (ordered fields pairs)) before)) :
    n ∈ broken (resolve fields pairs) := by
  rcases List.mem_append.mp hn with hn | hn
  · obtain ⟨t, ht, hv, hname⟩ := mem_broken.mp hn
    have hkeep := mem_markFrom_of_not_isValid (broken (ordered fields pairs)) ht hv
    exact mem_broken.mpr ⟨t, mem_resolve_of_not_isValid hkeep hv, hv, hname⟩
  · obtain ⟨t, ht, hv, hname⟩ := mem_broken.mp hn
    have hmem : t ∈ marked fields pairs := by
      rw [marked_eq_of_turn hturn]
      exact List.mem_append_left _ ht
    exact mem_broken.mpr ⟨t, mem_resolve_of_not_isValid hmem hv, hv, hname⟩

/-- What an entry with a layer refers to has faults before it if it has any in the end. -/
theorem mem_broken_before_iff (hf : Defines pairs f) (hpos : 0 < layerOf pairs f.name)
    (hturn : ordered fields pairs = before ++ unmarked fields pairs f :: after) {n : String}
    (href : f.Refers n) :
    n ∈ broken (ordered fields pairs) ++
        broken (markFrom (broken (ordered fields pairs)) before) ↔
      n ∈ broken (resolve fields pairs) := by
  constructor
  · exact mem_broken_resolve_of_turn hturn
  · intro hn
    obtain ⟨t, ht, hv, rfl⟩ := mem_broken.mp hn
    -- It is a formula of a lower layer.
    have he := entry_of_mem ht
    obtain ⟨htpos, htlt⟩ :=
      layerOf_lt hpos (mem_needs.mpr ⟨.single (hf.refers href), he.defined⟩)
    rw [← he.layer] at htpos htlt
    have hbefore := mem_markFrom_of_layer_lt hturn
      ((mem_marked_iff_of_layer (Nat.ne_of_gt htpos)).mpr ht) htlt
    exact List.mem_append_right _ (mem_broken.mpr ⟨t, hbefore, hv, rfl⟩)

end Turn

/-- An entry that has a layer is marked by all that has faults in the end. -/
theorem mark_mem_resolve (fields : List String) {f : Formula} (hf : Defines pairs f)
    (hpos : 0 < layerOf pairs f.name) :
    mark (broken (resolve fields pairs)) (unmarked fields pairs f) ∈ resolve fields pairs := by
  obtain ⟨before, after, hturn⟩ := exists_turn fields hf
  have hmem : mark (broken (ordered fields pairs) ++
      broken (markFrom (broken (ordered fields pairs)) before)) (unmarked fields pairs f) ∈
        marked fields pairs := by
    rw [marked_eq_of_turn hturn, markFrom]
    exact List.mem_append_right _ List.mem_cons_self
  -- The names that counted when it was marked are those that count in the end.
  rw [mark_congr fun n href _ => mem_broken_before_iff hf hpos hturn href] at hmem
  have hlayer : (mark (broken (resolve fields pairs)) (unmarked fields pairs f)).layer =
      layerOf pairs f.name := mark_frame (fun _ _ => rfl) _ _
  exact (mem_marked_iff_of_layer (by omega)).mp hmem

/-! ## Validity -/

/-- An entry is the only one with its name. -/
theorem eq_of_name_eq {s : Resolved} (hr : r ∈ resolve fields pairs) (hs : s ∈ resolve fields pairs)
    (h : r.name = s.name) : r = s :=
  List.inj_on_of_nodup_map (nodup_name_resolve fields pairs) hr hs h

theorem not_mem_broken_name (hr : r ∈ resolve fields pairs) :
    r.name ∉ broken (resolve fields pairs) ↔ r.isValid = true := by
  rw [mem_broken]
  constructor
  · intro h
    by_contra hv
    exact h ⟨r, hr, Bool.not_eq_true _ ▸ hv, rfl⟩
  · rintro hv ⟨s, hs, hsv, hsn⟩
    rw [eq_of_name_eq hs hr hsn, hv] at hsv
    exact nomatch hsv

/-- An entry with a layer has no faults if and only if its own tokens have none and it refers to
    no formula that has faults. -/
theorem not_mem_broken_iff {n : String} (hn : Defined pairs n) (hpos : 0 < layerOf pairs n) :
    n ∉ broken (resolve fields pairs) ↔
      Clean fields pairs n ∧ ∀ m, Refers pairs n m → m ∉ broken (resolve fields pairs) := by
  obtain ⟨f, hf, rfl⟩ := hn
  have hmem := mark_mem_resolve fields hf hpos
  have hname : (mark (broken (resolve fields pairs)) (unmarked fields pairs f)).name = f.name :=
    mark_frame (fun _ _ => rfl) _ _
  -- A formula with a layer lies on no circle, so it does not refer to itself.
  have hfree : ¬Reaches pairs f.name f.name := by
    intro h
    have := (layerOf_eq_zero_iff ⟨f, hf, rfl⟩).mpr (.inl h)
    omega
  have hvalid := not_mem_broken_name hmem
  rw [hname, isValid_mark_iff, isValid_unmarked_iff hf] at hvalid
  rw [hvalid]
  constructor
  · rintro ⟨⟨hclean, -⟩, h⟩
    refine ⟨hclean, fun m hm => h m (hf.refers_iff.mp hm) ?_⟩
    rintro rfl
    exact hfree (.single hm)
  · rintro ⟨hclean, h⟩
    exact ⟨⟨hclean, hfree⟩, fun m hm _ => h m (hf.refers hm)⟩

/-- Along the layers: an entry with a layer has no faults if and only if neither its own tokens
    nor those of the formulas it needs have any. -/
theorem not_mem_broken_iff_clean {n : String} (hn : Defined pairs n)
    (hpos : 0 < layerOf pairs n) :
    n ∉ broken (resolve fields pairs) ↔
      Clean fields pairs n ∧ ∀ m ∈ needs pairs n, Clean fields pairs m := by
  induction hk : layerOf pairs n using Nat.strongRecOn generalizing n with
  | _ k ih =>
    subst hk
    have hlower {m : String} (hm : m ∈ needs pairs n) :
        m ∉ broken (resolve fields pairs) ↔
          Clean fields pairs m ∧ ∀ l ∈ needs pairs m, Clean fields pairs l :=
      have h := layerOf_lt hpos hm
      ih _ h.2 (mem_needs.mp hm).2 h.1 rfl
    rw [not_mem_broken_iff hn hpos]
    constructor
    · rintro ⟨hclean, h⟩
      refine ⟨hclean, fun m hm => ?_⟩
      -- The chain to a needed formula starts with a reference.
      obtain ⟨hreach, hdef⟩ := mem_needs.mp hm
      obtain ⟨l, hl, hlm⟩ := Relation.TransGen.head'_iff.mp hreach
      rcases Relation.reflTransGen_iff_eq_or_transGen.mp hlm with rfl | hlm
      · exact ((hlower hm).mp (h m hl)).1
      · have hneed : l ∈ needs pairs n := mem_needs.mpr ⟨.single hl, Reaches.defined hlm⟩
        exact ((hlower hneed).mp (h l hl)).2 m (mem_needs.mpr ⟨hlm, hdef⟩)
    · rintro ⟨hclean, h⟩
      refine ⟨hclean, fun m hm hbroken => ?_⟩
      obtain ⟨s, hs, -, rfl⟩ := mem_broken.mp hbroken
      have hneed : s.name ∈ needs pairs n :=
        mem_needs.mpr ⟨.single hm, (entry_of_mem hs).defined⟩
      exact (hlower hneed).mpr
        ⟨h _ hneed, fun l hl => h l (mem_needs_of_mem_needs hneed hl)⟩ hbroken

/-- **Validity.** An entry has no faults if and only if it neither lies on a circle of references
    nor reaches one, and neither its own tokens nor those of any of its dependencies have faults,
    where the fields and all defined names may be referred to. -/
theorem faults_resolve_eq_nil_iff (fields : List String) (pairs : List (String × String))
    {r : Resolved} (hr : r ∈ resolve fields pairs) :
    r.faults = [] ↔ ¬Entangled pairs r.name ∧
      ∀ s ∈ resolve fields pairs, s.name = r.name ∨ s.name ∈ r.dependencies →
        Fault.check (some (fields ++ (Formula.latest pairs).map Formula.name))
          s.formula.tokens = [] := by
  have he := entry_of_mem hr
  have hclean : (∀ s ∈ resolve fields pairs, s.name = r.name ∨ s.name ∈ r.dependencies →
      Fault.check (some (allowed fields pairs)) s.formula.tokens = []) ↔
        Clean fields pairs r.name ∧ ∀ m ∈ needs pairs r.name, Clean fields pairs m := by
    rw [he.dependencies]
    constructor
    · intro h
      refine ⟨he.clean_iff.mpr (h r hr (.inl rfl)), fun m hm => ?_⟩
      obtain ⟨s, hs, rfl⟩ := exists_mem_resolve fields (mem_needs.mp hm).2
      exact (entry_of_mem hs).clean_iff.mpr (h s hs (.inr hm))
    · rintro ⟨hown, hneeds⟩ s hs (hname | hneed)
      · exact (entry_of_mem hs).clean_iff.mp (hname ▸ hown)
      · exact (entry_of_mem hs).clean_iff.mp (hneeds _ hneed)
  rw [← List.isEmpty_iff, ← Resolved.isValid, ← not_mem_broken_name hr, ← allowed, hclean,
    ← he.layer_eq_zero_iff]
  -- Without a layer there is a fault and a circle; with one, the layers decide.
  by_cases hzero : r.layer = 0
  · have hv := isValid_of_layer_eq_zero hr hzero
    have hbroken : r.name ∈ broken (resolve fields pairs) := mem_broken.mpr ⟨r, hr, hv, rfl⟩
    simp [hbroken, hzero]
  · rw [he.layer] at hzero ⊢
    rw [not_mem_broken_iff_clean he.defined (by omega), and_iff_right hzero]

/-- A formula over another one, which is over a field. -/
theorem faults_resolve_total :
    ∃ r ∈ resolve ["x"] [("Total", "\x7bNET\x7d"), ("net", "\x7bx\x7d")],
      r.name = "total" ∧ r.faults = [] ∧
      ¬Entangled [("Total", "\x7bNET\x7d"), ("net", "\x7bx\x7d")] r.name := by
  have hlist : (resolve ["x"] [("Total", "\x7bNET\x7d"), ("net", "\x7bx\x7d")]).map
      (fun r => (r.name, r.faults.length)) = [("net", 0), ("total", 0)] := by
    cbv
  have hmem : ("total", 0) ∈ [("net", 0), ("total", 0)] := by decide
  rw [← hlist] at hmem
  obtain ⟨r, hr, heq⟩ := List.mem_map.mp hmem
  obtain ⟨hname, hlength⟩ := Prod.mk.inj heq
  have hfaults := List.length_eq_zero_iff.mp hlength
  exact ⟨r, hr, hname, hfaults, ((faults_resolve_eq_nil_iff _ _ hr).mp hfaults).1⟩

end Resolution

end Formulary
