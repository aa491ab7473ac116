/-
  Formulary.Proofs.SingleValue

  The value of a single formula against the results of all formulas.

  Before a single formula only those are computed that it needs. They are enough: what a
  needed formula refers to is needed as well (`mem_needed_of_refers`), so the scope behind
  the needed formulas and the scope behind all of them give a needed formula the same value,
  by induction along the layers (`lookup_neededScope`).

  `value_ofPairs` then says for every name which answer is given.
-/

import Formulary.Proofs.Computation

namespace Formulary

namespace Worksheet

variable {fields : List String} {pairs record : List (String × String)} {w : Worksheet}
  {target r d : Resolved} {name : String}

open Resolution

/-! ## What is needed -/

/-- In the order of layers, all formulas below a layer stand in front. -/
theorem takeWhile_layer {rs : List Resolved} (k : Nat)
    (h : rs.Pairwise fun a b => a.layer ≤ b.layer) :
    (rs.takeWhile fun d => d.layer < k) = rs.filter fun d => d.layer < k := by
  induction rs with
  | nil => rfl
  | cons a rs ih =>
    obtain ⟨hle, htail⟩ := List.pairwise_cons.mp h
    rw [List.takeWhile_cons, List.filter_cons, ih htail]
    split
    · rfl
    · next ha =>
      have hge : k ≤ a.layer := by simpa using ha
      symm
      rw [List.filter_eq_nil_iff]
      intro d hd
      have hd' := hle d hd
      rw [decide_eq_true_eq]
      omega

theorem needed_sublist (w : Worksheet) (target : Resolved) :
    (w.needed target).Sublist w.entries :=
  List.filter_sublist.trans (List.takeWhile_sublist _)

/-- Needed are the dependencies in lower layers. -/
theorem mem_needed (hw : w.entries = resolve fields pairs) :
    r ∈ w.needed target ↔
      r ∈ w.entries ∧ r.layer < target.layer ∧ r.name ∈ target.dependencies := by
  have hsorted : w.entries.Pairwise fun a b => a.layer ≤ b.layer :=
    hw ▸ pairwise_layer_resolve fields pairs
  rw [needed, takeWhile_layer _ hsorted, List.mem_filter, List.mem_filter, List.contains_iff_mem,
    decide_eq_true_eq, and_assoc]

/-- What the target refers to is needed, and so is what a formula refers to that the target
    reaches. -/
theorem mem_needed_of_refers (hw : w.entries = resolve fields pairs) (ht : target ∈ w.entries)
    (hr : r ∈ w.entries) (hc : r.isComputable = true) (hle : r.layer ≤ target.layer)
    (hreach : Relation.ReflTransGen (Refers pairs) target.name r.name)
    (hd : d ∈ w.entries) (href : r.formula.Refers d.name) : d ∈ w.needed target := by
  rw [hw] at ht hr hd
  have hlt := (isComputable_of_refers hr hc hd href).2
  have hrefers := (entry_of_mem hr).defines.refers href
  have hdep : d.name ∈ target.dependencies :=
    (entry_of_mem ht).mem_dependencies.mpr
      ⟨Relation.TransGen.tail' hreach hrefers, (entry_of_mem hd).defined⟩
  exact (mem_needed hw).mpr ⟨hw ▸ hd, by omega, hdep⟩

/-! ## Two scopes -/

/-- The scope behind the formulas that a formula needs. -/
def neededScope (w : Worksheet) (target : Resolved) (record : List (String × String)) : Scope :=
  (computeFrom (Scope.ofRecord record) (.empty (w.needed target).length) (w.needed target)).1

/-- Two scopes that agree on the formulas that a formula refers to give it the same value. -/
theorem valueIn_neededScope_of_agree
    (h : ∀ d ∈ w.entries, r.formula.Refers d.name →
      (w.neededScope target record).lookup d.name = (w.finalScope record).lookup d.name) :
    r.valueIn (w.neededScope target record) = r.valueIn (w.finalScope record) := by
  apply Resolved.valueIn_congr
  intro n href
  by_cases hn : ∃ d ∈ w.entries, d.name = n
  · obtain ⟨d, hd, rfl⟩ := hn
    exact h d hd href
  · -- A name of no formula is that of a field in both.
    have hne : ∀ d ∈ w.entries, d.isComputable = true → d.name ≠ n :=
      fun d hd _ heq => hn ⟨d, hd, heq⟩
    rw [neededScope, finalScope, lookup_computeFrom_of_ne hne, lookup_computeFrom_of_ne]
    exact fun d hd => hne d ((needed_sublist w target).subset hd)

/-- A needed formula has the same value behind the needed formulas as behind all of them. -/
theorem lookup_neededScope (hw : w.entries = resolve fields pairs) (ht : target ∈ w.entries)
    (hr : r ∈ w.needed target) (hc : r.isComputable = true) :
    (w.neededScope target record).lookup r.name = (w.finalScope record).lookup r.name := by
  -- Both scopes give the formula the value it has in them, and what it refers to is lower.
  induction hk : r.layer using Nat.strongRecOn generalizing r with
  | _ k ih =>
    subst hk
    obtain ⟨hmem, hlayer, hdep⟩ := (mem_needed hw).mp hr
    have hreach := ((entry_of_mem (hw ▸ ht)).mem_dependencies.mp hdep).1.to_reflTransGen
    have horder := (inOrder_entries hw).sublist (needed_sublist w target)
    have hvalue : r.valueIn (w.neededScope target record) = r.valueIn (w.finalScope record) := by
      apply valueIn_neededScope_of_agree
      intro d hd href
      obtain ⟨hdc, hlt⟩ := isComputable_of_refers (hw ▸ hmem) hc (hw ▸ hd) href
      have hneed := mem_needed_of_refers hw ht hmem hc (by omega) hreach hd href
      exact ih _ hlt hneed hdc rfl
    rw [lookup_finalScope hw hmem hc, ← hvalue, neededScope, lookup_computeFrom horder hr hc]

/-- The needed formulas are enough for the value of a formula. -/
theorem valueIn_neededScope (hw : w.entries = resolve fields pairs) (ht : target ∈ w.entries)
    (hc : target.isComputable = true) :
    target.valueIn (w.neededScope target record) = target.valueIn (w.finalScope record) := by
  apply valueIn_neededScope_of_agree
  intro d hd href
  have hdc := (isComputable_of_refers (hw ▸ ht) hc (hw ▸ hd) href).1
  have hneed := mem_needed_of_refers hw ht ht hc (Nat.le_refl _) .refl hd href
  exact lookup_neededScope hw ht hneed hdc

/-! ## The two ways to a value -/

theorem isComputable_of_isValid (hw : w.entries = resolve fields pairs) (hr : r ∈ w.entries)
    (hv : r.isValid = true) : r.isComputable = true := by
  have hpos : r.layer ≠ 0 := by
    intro hzero
    rw [isValid_of_layer_eq_zero (hw ▸ hr) hzero] at hv
    exact nomatch hv
  exact Resolved.isComputable_iff.mpr ⟨List.isEmpty_iff.mp hv, Nat.pos_of_ne_zero hpos⟩

/-- The answer for a single formula, in terms of the scope behind all formulas. -/
theorem value_eq (hw : w.entries = resolve fields pairs) (name : String)
    (record : List (String × String)) :
    w.value name record =
      match w.find? name with
      | none => .error (.unknown name)
      | some r =>
        if r.isValid then .ok (r.valueIn (w.finalScope record))
        else .error (.invalid r.formula.given (r.faults.map Fault.problem)) := by
  rw [value]
  cases hfind : w.find? name with
  | none => rfl
  | some r =>
    have hr := ((find?_eq_some_iff hw).mp hfind).1
    cases hv : r.isValid with
    | false => simp [hv]
    | true =>
      -- What is computed before it is enough: its references have their values there already.
      have hc := isComputable_of_isValid hw hr hv
      have hresolved : r.isResolved = true := decide_eq_true (Resolved.isComputable_iff.mp hc).2
      have hvalue : r.valueIn (w.neededScope r record) = r.valueIn (w.finalScope record) :=
        valueIn_neededScope hw hr hc
      rw [neededScope] at hvalue
      simp [hv, hresolved, hvalue]

/-- The value of a computed formula is found under every spelling of its name. -/
theorem get?_compute (hw : w.entries = resolve fields pairs) (hr : r ∈ w.entries)
    (hc : r.isComputable = true) (hname : r.name = Text.lower name) :
    (w.compute record).get? name = some (r.valueIn (w.finalScope record)) := by
  have hlower := (inOrder_entries hw).lower
  -- No other value stands under a spelling of the name.
  have hsame : ∀ p ∈ (w.compute record).values,
      decide (Text.lower p.1 = Text.lower name) = decide (p.1 = r.formula.given) := by
    intro p hp
    obtain ⟨d, hd, hgiven⟩ := List.mem_map.mp (mem_names_compute.mp (List.mem_map_of_mem hp))
    have hd := List.mem_of_mem_filter hd
    rw [decide_eq_decide, ← hgiven, ← hlower d hd, ← hname]
    constructor
    · intro heq
      rw [eq_of_name_eq (hw ▸ hd) (hw ▸ hr) heq]
    · intro heq
      rw [hlower d hd, hlower r hr, heq]
  have hlookup := Names.lookup_map Prod.fst Prod.snd (w.compute record).values r.formula.given
  rw [List.map_id'] at hlookup
  rw [Results.get?, List.find?_congr hsame, ← hlookup, lookup_compute hw hr hc,
    lookup_finalScope hw hr hc]

/-- Among the results, a name finds the value of the computed formula with the name. -/
theorem get?_compute_eq_some_iff (hw : w.entries = resolve fields pairs) {v : String} :
    (w.compute record).get? name = some v ↔
      ∃ r ∈ w.entries, r.name = Text.lower name ∧ r.isComputable = true ∧
        r.valueIn (w.finalScope record) = v := by
  constructor
  · intro h
    obtain ⟨p, hp, -⟩ := Option.map_eq_some_iff.mp h
    have hkey := mem_names_compute.mp (List.mem_map_of_mem (List.mem_of_find?_eq_some hp))
    obtain ⟨r, hr, hgiven⟩ := List.mem_map.mp hkey
    obtain ⟨hr, hc⟩ := List.mem_filter.mp hr
    have hname : r.name = Text.lower name := by
      rw [(inOrder_entries hw).lower r hr, hgiven]
      simpa using List.find?_some hp
    rw [get?_compute hw hr hc hname] at h
    exact ⟨r, hr, hname, hc, Option.some.inj h⟩
  · rintro ⟨r, hr, hname, hc, rfl⟩
    exact get?_compute hw hr hc hname

theorem exists_mem_name_iff (hw : w.entries = resolve fields pairs) {p : Resolved → Prop} :
    (∃ r ∈ w.entries, r.name = Text.lower name ∧ p r) ↔ ∃ r, w.find? name = some r ∧ p r := by
  simp only [find?_eq_some_iff hw, and_assoc]

/-- **Single values.** A name is unknown if and only if no formula has it. It is refused as
    invalid, with the problems of the formula, if and only if the formula with the name has
    faults. It has a value if and only if the results of all formulas have this value under the
    name. That a formula without faults has no layer never happens. -/
theorem value_ofPairs (fields : Option (List String)) (pairs record : List (String × String))
    (name : String) :
    let w := ofPairs fields pairs
    (∀ n, w.value name record = .error (.unknown n) ↔
      n = name ∧ ∀ r ∈ w.entries, r.name ≠ Text.lower name) ∧
    (∀ given problems, w.value name record = .error (.invalid given problems) ↔
      ∃ r ∈ w.entries, r.name = Text.lower name ∧ r.faults ≠ [] ∧
        given = r.formula.given ∧ problems = r.faults.map Fault.problem) ∧
    (∀ v, w.value name record = .ok v ↔ (w.compute record).get? name = some v) ∧
    ∀ n, w.value name record ≠ .error (.unresolved n) := by
  intro w
  have hw : w.entries = resolve (fields.getD (referredNames pairs)) pairs := rfl
  simp only [← find?_eq_none_iff, get?_compute_eq_some_iff hw, exists_mem_name_iff hw]
  rw [value_eq hw]
  cases hfind : w.find? name with
  | none => simp [eq_comm (a := name)]
  | some r =>
    have hr := ((find?_eq_some_iff hw).mp hfind).1
    cases hv : r.isValid with
    | false =>
      have hfaults : r.faults ≠ [] := fun hnil => by simp [Resolved.isValid, hnil] at hv
      have hc : r.isComputable = false := by rw [Resolved.isComputable, hv, Bool.false_and]
      simp [hv, hfaults, hc, eq_comm (a := r.formula.given), eq_comm (a := r.faults.map _)]
    | true =>
      have hfaults : r.faults = [] := List.isEmpty_iff.mp hv
      have hc := isComputable_of_isValid hw hr hv
      simp [hv, hfaults, hc]

end Worksheet

end Formulary
