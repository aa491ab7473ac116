/-
  Formulary.Proofs.Computation

  What a worksheet computes for a record.

  The formulas stand in an order in which none refers to itself or to one behind it
  (`inOrder_resolve`). So the scope that is left in the end gives every computed formula the
  value that the formula has in this very scope (`lookup_computeFrom`): what was in scope
  when the formula was computed has not changed since. The results hold the same values
  under the given names (`lookup_values_computeFrom`).

  `compute_ofPairs` puts this together without the loop: the value of a formula is that of
  its tree, where a name stands for the value of the formula with the name, or else for the
  last field of the record with the name, or else for the empty text.
-/

import Formulary.Proofs.Leaves
import Formulary.Proofs.Validity
import Formulary.Worksheet

namespace Formulary

/-! ## Scopes -/

/-- The value of the last field of a record with a name in lower case. -/
def lastField? (record : List (String × String)) (n : String) : Option String :=
  (record.reverse.find? fun p => Text.lower p.1 = n).map Prod.snd

theorem Scope.lookup_ofRecord (record : List (String × String)) (n : String) :
    (ofRecord record).lookup n = lastField? record n := by
  rw [ofRecord, ← List.map_reverse, Names.lookup_map]
  rfl

namespace Resolved

variable {r : Resolved}

theorem isComputable_iff : r.isComputable = true ↔ r.faults = [] ∧ 0 < r.layer := by
  simp [isComputable, isValid, isResolved]

/-- The value of a formula depends on the names that it refers to. -/
theorem valueIn_congr {s s' : Scope}
    (h : ∀ n, r.formula.Refers n → s.lookup n = s'.lookup n) : r.valueIn s = r.valueIn s' := by
  apply Expr.value_congr
  intro t ht hk
  rw [Scope.get, h _ ⟨t, ht, hk, rfl⟩, Scope.get]

end Resolved

namespace Worksheet

/-! ## The loop -/

/-- Formulas in an order in which they can be computed: no two have the same name, and those
    that are computed refer neither to themselves nor to a formula behind them. -/
structure InOrder (rs : List Resolved) : Prop where
  lower : ∀ r ∈ rs, r.name = Text.lower r.formula.given
  distinct : rs.Pairwise fun r d => r.name ≠ d.name
  own : ∀ r ∈ rs, r.isComputable → ¬r.formula.Refers r.name
  behind : rs.Pairwise fun r d => r.isComputable → ¬r.formula.Refers d.name

theorem InOrder.sublist {rs ss : List Resolved} (h : InOrder rs) (hs : ss.Sublist rs) :
    InOrder ss where
  lower r hr := h.lower r (hs.subset hr)
  distinct := h.distinct.sublist hs
  own r hr := h.own r (hs.subset hr)
  behind := h.behind.sublist hs

section Loop

variable {s : Scope} {results : Results} {r : Resolved} {rs : List Resolved}

/-- Names of no computed formula keep their values. -/
theorem lookup_computeFrom_of_ne {n : String}
    (h : ∀ r ∈ rs, r.isComputable = true → r.name ≠ n) :
    (computeFrom s results rs).1.lookup n = s.lookup n := by
  fun_induction computeFrom s results rs with
  | case1 => rfl
  | case2 s results r rs hc v ih =>
    obtain ⟨hr, hrest⟩ := List.forall_mem_cons.mp h
    rw [ih hrest, Names.lookup_cons, if_neg (hr hc).symm]
  | case3 s results r rs hc ih => exact ih (List.forall_mem_cons.mp h).2

/-- In the end a computed formula has the value that it has in the scope of the end. -/
theorem lookup_computeFrom (h : InOrder rs) (hr : r ∈ rs) (hc : r.isComputable = true) :
    (computeFrom s results rs).1.lookup r.name =
      some (r.valueIn (computeFrom s results rs).1) := by
  fun_induction computeFrom s results rs with
  | case1 => exact nomatch hr
  | case2 s results a rs _ v ih =>
    have hdistinct := (List.pairwise_cons.mp h.distinct).1
    have hbehind := (List.pairwise_cons.mp h.behind).1
    rcases List.mem_cons.mp hr with rfl | hr
    · -- What the formula refers to has the same value before it and in the end.
      have hsame : v = r.valueIn (computeFrom ((r.name, v) :: s)
          (results.add r.formula.given v) rs).1 := by
        apply Resolved.valueIn_congr
        intro n hn
        have hne : n ≠ r.name := by
          rintro rfl
          exact h.own r hr hc hn
        rw [lookup_computeFrom_of_ne, Names.lookup_cons, if_neg hne]
        rintro d hd - rfl
        exact hbehind d hd hc hn
      rw [← hsame, lookup_computeFrom_of_ne fun d hd _ => (hdistinct d hd).symm,
        Names.lookup_cons, if_pos rfl]
    · exact ih (h.sublist (List.sublist_cons_self a rs)) hr
  | case3 s results a rs ha ih =>
    rcases List.mem_cons.mp hr with rfl | hr
    · exact absurd hc ha
    · exact ih (h.sublist (List.sublist_cons_self a rs)) hr

/-- Values under given names of no computed formula stay as they are. -/
theorem lookup_values_computeFrom_of_ne {n : String}
    (h : ∀ r ∈ rs, r.isComputable = true → r.formula.given ≠ n) :
    (computeFrom s results rs).2.values.lookup n = results.values.lookup n := by
  fun_induction computeFrom s results rs with
  | case1 => rfl
  | case2 s results r rs hc v ih =>
    obtain ⟨hr, hrest⟩ := List.forall_mem_cons.mp h
    rw [ih hrest, Results.add, Values.lookup_insert, if_neg (hr hc).symm]
  | case3 s results r rs hc ih => exact ih (List.forall_mem_cons.mp h).2

/-- The results hold the values of the scope, under the given names. -/
theorem lookup_values_computeFrom (h : InOrder rs) (hr : r ∈ rs) (hc : r.isComputable = true) :
    (computeFrom s results rs).2.values.lookup r.formula.given =
      (computeFrom s results rs).1.lookup r.name := by
  fun_induction computeFrom s results rs with
  | case1 => exact nomatch hr
  | case2 s results a rs _ v ih =>
    have htail := h.sublist (List.sublist_cons_self a rs)
    have hdistinct := (List.pairwise_cons.mp h.distinct).1
    rcases List.mem_cons.mp hr with rfl | hr
    · -- Formulas with different names have different given names.
      have hgiven : ∀ d ∈ rs, d.isComputable = true → d.formula.given ≠ r.formula.given := by
        intro d hd _ heq
        apply hdistinct d hd
        rw [h.lower r hr, htail.lower d hd, heq]
      rw [lookup_values_computeFrom_of_ne hgiven, Results.add, Values.lookup_insert, if_pos rfl,
        lookup_computeFrom_of_ne fun d hd _ => (hdistinct d hd).symm, Names.lookup_cons,
        if_pos rfl]
    · exact ih htail hr
  | case3 s results a rs ha ih =>
    rcases List.mem_cons.mp hr with rfl | hr
    · exact absurd hc ha
    · exact ih (h.sublist (List.sublist_cons_self a rs)) hr

/-- Values stand under the given names of the computed formulas. -/
theorem mem_names_computeFrom {n : String} :
    n ∈ (computeFrom s results rs).2.values.map Prod.fst ↔
      n ∈ results.values.map Prod.fst ∨
        n ∈ (rs.filter Resolved.isComputable).map fun r => r.formula.given := by
  fun_induction computeFrom s results rs with
  | case1 => exact (or_iff_left List.not_mem_nil).symm
  | case2 s results r rs hc v ih =>
    rw [ih, Results.add, Values.names_insert, Names.mem_insert, List.filter_cons_of_pos hc,
      List.map_cons, List.mem_cons, or_assoc, or_left_comm]
  | case3 s results r rs hc ih => rw [ih, Results.skip, List.filter_cons_of_neg hc]

/-- The names of the values are in order. -/
theorem pairwise_names_computeFrom (h : (results.values.map Prod.fst).Pairwise (· < ·)) :
    ((computeFrom s results rs).2.values.map Prod.fst).Pairwise (· < ·) := by
  fun_induction computeFrom s results rs with
  | case1 => exact h
  | case2 s results r rs hc v ih =>
    apply ih
    rw [Results.add, Values.names_insert]
    exact Names.pairwise_insert h
  | case3 s results r rs hc ih => exact ih h

/-- Every formula is counted, as computed or as passed over. -/
theorem counts_computeFrom (s : Scope) (results : Results) (rs : List Resolved) :
    (computeFrom s results rs).2.formulas = results.formulas ∧
      (computeFrom s results rs).2.computed =
        results.computed + (rs.filter Resolved.isComputable).length ∧
      (computeFrom s results rs).2.computed + (computeFrom s results rs).2.skipped =
        results.computed + results.skipped + rs.length := by
  -- Every entry adds one to exactly one of the two counts.
  fun_induction computeFrom s results rs with
  | case1 => exact ⟨rfl, rfl, rfl⟩
  | case2 s results r rs hc v ih =>
    obtain ⟨hformulas, hcomputed, hall⟩ := ih
    have hadd : (results.add r.formula.given v).computed = results.computed + 1 := rfl
    have hskipped : (results.add r.formula.given v).skipped = results.skipped := rfl
    rw [List.filter_cons_of_pos hc, List.length_cons, List.length_cons]
    exact ⟨hformulas, by omega, by omega⟩
  | case3 s results r rs hc ih =>
    obtain ⟨hformulas, hcomputed, hall⟩ := ih
    have hkept : results.skip.computed = results.computed := rfl
    have hskip : results.skip.skipped = results.skipped + 1 := rfl
    rw [List.filter_cons_of_neg hc, List.length_cons]
    exact ⟨hformulas, by omega, by omega⟩

end Loop

/-! ## The order of resolved formulas -/

section Order

variable {fields : List String} {pairs : List (String × String)} {r d : Resolved}

open Resolution

/-- What a computed formula refers to is computed, and in a lower layer. -/
theorem isComputable_of_refers (hr : r ∈ resolve fields pairs) (hc : r.isComputable = true)
    (hd : d ∈ resolve fields pairs) (href : r.formula.Refers d.name) :
    d.isComputable = true ∧ d.layer < r.layer := by
  obtain ⟨hfaults, hpos⟩ := Resolved.isComputable_iff.mp hc
  have hr' := entry_of_mem hr
  have hd' := entry_of_mem hd
  have hrefers := hr'.defines.refers href
  rw [hr'.layer] at hpos
  -- A formula without faults refers to none with faults.
  have hvalid : r.name ∉ broken (resolve fields pairs) :=
    (not_mem_broken_name hr).mpr (List.isEmpty_iff.mpr hfaults)
  have hdvalid : d.isValid = true :=
    (not_mem_broken_name hd).mp (((not_mem_broken_iff hr'.defined hpos).mp hvalid).2 _ hrefers)
  obtain ⟨hdpos, hlt⟩ := layerOf_lt hpos (mem_needs.mpr ⟨.single hrefers, hd'.defined⟩)
  rw [← hd'.layer] at hdpos hlt
  rw [← hr'.layer] at hlt
  exact ⟨Resolved.isComputable_iff.mpr ⟨List.isEmpty_iff.mp hdvalid, hdpos⟩, hlt⟩

theorem inOrder_resolve (fields : List String) (pairs : List (String × String)) :
    InOrder (resolve fields pairs) where
  lower r hr := (entry_of_mem hr).defines.name_eq
  distinct := List.pairwise_map.mp (nodup_name_resolve fields pairs)
  own r hr hc href := by
    have hlt := (isComputable_of_refers hr hc hr href).2
    omega
  behind := by
    refine (pairwise_layer_resolve fields pairs).imp_of_mem ?_
    intro r d hr hd hle hc href
    have hlt := (isComputable_of_refers hr hc hd href).2
    omega

end Order

/-! ## The results for a record -/

section Record

variable {fields : List String} {pairs record : List (String × String)} {w : Worksheet}
  {r : Resolved} {name : String}

open Resolution

theorem find?_eq_none_iff : w.find? name = none ↔ ∀ r ∈ w.entries, r.name ≠ Text.lower name := by
  simp only [find?, List.find?_eq_none, decide_eq_true_eq, ne_eq]

theorem find?_eq_some_iff (hw : w.entries = resolve fields pairs) :
    w.find? name = some r ↔ r ∈ w.entries ∧ r.name = Text.lower name := by
  have hfound {d : Resolved} (h : w.find? name = some d) :
      d ∈ w.entries ∧ d.name = Text.lower name :=
    ⟨List.mem_of_find?_eq_some h, by simpa using List.find?_some h⟩
  constructor
  · exact hfound
  · rintro ⟨hr, hname⟩
    cases hfind : w.find? name with
    | none => exact absurd hname (find?_eq_none_iff.mp hfind r hr)
    | some d =>
      obtain ⟨hd, hdname⟩ := hfound hfind
      rw [hw] at hr hd
      rw [eq_of_name_eq hd hr (hdname.trans hname.symm)]

/-- The scope that is left when all formulas have been computed. -/
def finalScope (w : Worksheet) (record : List (String × String)) : Scope :=
  (computeFrom (Scope.ofRecord record) (.empty w.entries.length) w.entries).1

/-- What a name stands for: the value of the formula with the name, else the last field of the
    record with the name, else the empty text. -/
def meaning (w : Worksheet) (record : List (String × String)) (name : String) : String :=
  match w.find? name with
  | some r => ((w.compute record).values.lookup r.formula.given).getD ""
  | none => (lastField? record (Text.lower name)).getD ""

theorem inOrder_entries (hw : w.entries = resolve fields pairs) : InOrder w.entries :=
  hw ▸ inOrder_resolve fields pairs

theorem lookup_compute (hw : w.entries = resolve fields pairs) (hr : r ∈ w.entries)
    (hc : r.isComputable = true) :
    (w.compute record).values.lookup r.formula.given = (w.finalScope record).lookup r.name :=
  lookup_values_computeFrom (inOrder_entries hw) hr hc

/-- A computed formula has the value that it has in the scope of the end. -/
theorem lookup_finalScope (hw : w.entries = resolve fields pairs) (hr : r ∈ w.entries)
    (hc : r.isComputable = true) :
    (w.finalScope record).lookup r.name = some (r.valueIn (w.finalScope record)) :=
  lookup_computeFrom (inOrder_entries hw) hr hc

/-- In the scope of the end, a computed formula finds its names to mean what they stand for. -/
theorem valueIn_finalScope (hw : w.entries = resolve fields pairs) (hr : r ∈ w.entries)
    (hc : r.isComputable = true) :
    r.valueIn (w.finalScope record) = Expr.value (w.meaning record) r.formula.tree := by
  apply Expr.value_congr
  intro t ht hk
  have href : r.formula.Refers (Text.lower t.text) := ⟨t, ht, hk, rfl⟩
  rw [Scope.get, meaning]
  cases hfind : w.find? t.text with
  | none =>
    -- No formula has the name, so no value has come in the place of the field's.
    have hne := find?_eq_none_iff.mp hfind
    rw [finalScope, lookup_computeFrom_of_ne fun d hd _ => hne d hd, Scope.lookup_ofRecord]
  | some d =>
    -- The formula with the name is computed, so it is in scope and among the results.
    obtain ⟨hd, hname⟩ := (find?_eq_some_iff hw).mp hfind
    have hdc := (isComputable_of_refers (hw ▸ hr) hc (hw ▸ hd) (hname ▸ href)).1
    rw [← hname, ← lookup_compute hw hd hdc]

/-- The given names of the computed formulas differ from each other. -/
theorem nodup_given_filter (hw : w.entries = resolve fields pairs) :
    ((w.entries.filter Resolved.isComputable).map fun r => r.formula.given).Nodup := by
  have horder := (inOrder_entries hw).sublist (List.filter_sublist (p := Resolved.isComputable))
  refine List.pairwise_map.mpr (horder.distinct.imp_of_mem ?_)
  intro r d hr hd hne heq
  exact hne (by rw [horder.lower r hr, horder.lower d hd, heq])

theorem mem_names_compute {n : String} :
    n ∈ (w.compute record).values.map Prod.fst ↔
      n ∈ (w.entries.filter Resolved.isComputable).map fun r => r.formula.given :=
  mem_names_computeFrom.trans (or_iff_right List.not_mem_nil)

theorem pairwise_names_compute (w : Worksheet) (record : List (String × String)) :
    ((w.compute record).values.map Prod.fst).Pairwise (· < ·) :=
  pairwise_names_computeFrom List.Pairwise.nil

/-- There are as many values as computed formulas. -/
theorem length_values_compute (hw : w.entries = resolve fields pairs) :
    (w.compute record).values.length = (w.entries.filter Resolved.isComputable).length := by
  have hnodup := Names.nodup_of_pairwise (pairwise_names_compute w record)
  -- Both lists of names are without repetition and have the same members.
  have hperm := (List.perm_ext_iff_of_nodup hnodup (nodup_given_filter hw)).mpr
    fun _ => mem_names_compute
  simpa using hperm.length_eq

/-- **Results.** Of the formulas that pairs define, those without faults that have a layer are
    computed. Each of them has one value, under its given name. It is the value of the tree of
    the formula, where a name stands for the value of the formula with the name, else for the
    last field of the record with the name, else for the empty text; and all formulas that it
    refers to are computed. As many formulas are counted as computed as there are values, and
    the others as passed over. -/
theorem compute_ofPairs (fields : Option (List String)) (pairs record : List (String × String)) :
    let w := ofPairs fields pairs
    let results := w.compute record
    (∀ f, (∃ r ∈ w.entries, r.formula = f) ↔ Defines pairs f) ∧
    (w.entries.map Resolved.name).Nodup ∧
    (results.values.map Prod.fst).Pairwise (· < ·) ∧
    (∀ n, n ∈ results.values.map Prod.fst ↔
      ∃ r ∈ w.entries, (r.faults = [] ∧ 0 < r.layer) ∧ r.formula.given = n) ∧
    (∀ r ∈ w.entries, r.faults = [] ∧ 0 < r.layer →
      results.values.lookup r.formula.given =
        some (Expr.value (w.meaning record) r.formula.tree) ∧
      ∀ d ∈ w.entries, r.formula.Refers d.name →
        (d.faults = [] ∧ 0 < d.layer) ∧ d.formula.given ∈ results.values.map Prod.fst) ∧
    results.computed = results.values.length ∧
    results.computed + results.skipped = results.formulas ∧
    results.formulas = w.entries.length := by
  intro w results
  have hw : w.entries = resolve (fields.getD (referredNames pairs)) pairs := rfl
  have hnames (n : String) : n ∈ results.values.map Prod.fst ↔
      ∃ r ∈ w.entries, (r.faults = [] ∧ 0 < r.layer) ∧ r.formula.given = n := by
    rw [mem_names_compute]
    simp only [List.mem_map, List.mem_filter, Resolved.isComputable_iff, and_assoc]
  obtain ⟨hformulas, hcomputed, hall⟩ :=
    counts_computeFrom (Scope.ofRecord record) (.empty w.entries.length) w.entries
  refine ⟨fun f => exists_mem_resolve_iff, nodup_name_resolve _ _,
    pairwise_names_compute w record, hnames, ?_, ?_, ?_, hformulas⟩
  · intro r hr hclean
    have hc := Resolved.isComputable_iff.mpr hclean
    refine ⟨?_, fun d hd href => ?_⟩
    · rw [lookup_compute hw hr hc, lookup_finalScope hw hr hc, valueIn_finalScope hw hr hc]
    · have hd' := Resolved.isComputable_iff.mp (isComputable_of_refers hr hc hd href).1
      exact ⟨hd', (hnames _).mpr ⟨d, hd, hd', rfl⟩⟩
  · rw [length_values_compute hw]
    exact hcomputed.trans (Nat.zero_add _)
  · exact hall.trans ((Nat.zero_add _).trans hformulas.symm)

/-- The field with the name of the other formula does not count. -/
example : ((ofPairs none [("Total", "\x7bNET\x7d"), ("net", "\x7bx\x7d")]).compute
    [("X", "4"), ("Net", "5")]).values = [("Total", "4"), ("net", "4")] := by
  cbv

/-- A formula over another one, which is over a field. -/
theorem compute_ofPairs_total :
    ∃ r ∈ (ofPairs none [("Total", "\x7bNET\x7d"), ("net", "\x7bx\x7d")]).entries,
      r.name = "total" ∧ r.faults = [] ∧ r.layer = 2 ∧
      ((ofPairs none [("Total", "\x7bNET\x7d"), ("net", "\x7bx\x7d")]).compute
          [("X", "4"), ("Net", "5")]).values.lookup r.formula.given =
        some (Expr.value ((ofPairs none [("Total", "\x7bNET\x7d"), ("net", "\x7bx\x7d")]).meaning
          [("X", "4"), ("Net", "5")]) r.formula.tree) := by
  have hlist : (ofPairs none [("Total", "\x7bNET\x7d"), ("net", "\x7bx\x7d")]).entries.map
      (fun r => (r.name, r.faults.length, r.layer)) = [("net", 0, 1), ("total", 0, 2)] := by
    cbv
  have hmem : ("total", 0, 2) ∈ [("net", 0, 1), ("total", 0, 2)] := by decide
  rw [← hlist] at hmem
  obtain ⟨r, hr, heq⟩ := List.mem_map.mp hmem
  obtain ⟨hname, hlength, hlayer⟩ := And.imp_right Prod.mk.inj (Prod.mk.inj heq)
  have hfaults := List.length_eq_zero_iff.mp hlength
  obtain ⟨-, -, -, -, hvalues, -⟩ := compute_ofPairs none
    [("Total", "\x7bNET\x7d"), ("net", "\x7bx\x7d")] [("X", "4"), ("Net", "5")]
  exact ⟨r, hr, hname, hfaults, hlayer, (hvalues r hr ⟨hfaults, by omega⟩).1⟩

end Record

end Worksheet

end Formulary
