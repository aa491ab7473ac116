/-
  Formulary.Proofs.Entries

  The entries that resolving leaves: one for every defined formula, in the order of their
  layers.

  Marking looks at faults and changes faults, so whatever else is read off the entries is
  read off the formulas as they were before (`map_resolve`). What stands in an entry besides
  its faults is therefore known from its name alone (`Entry`), and
  `dependencies_layer_resolve` says what it means: dependencies are the defined names that
  the formula reaches, and the layer is the length of its longest chain of references, or
  zero if it is entangled.
-/

import Mathlib
import Formulary.Proofs.Layers

namespace Formulary

namespace Resolution

variable {fields : List String} {pairs : List (String × String)} {r : Resolved}

/-! ## Marking changes faults only -/

section Frame

variable {α : Type} {g : Resolved → α}

/-- What is read off an entry does not depend on its faults. -/
def IgnoresFaults (g : Resolved → α) : Prop := ∀ r faults, g { r with faults } = g r

theorem mark_frame (hg : IgnoresFaults g) (names : List String)
    (r : Resolved) : g (mark names r) = g r := by
  rw [mark]
  split
  · rfl
  · split
    · exact hg _ _
    · rfl

theorem map_markFrom (hg : IgnoresFaults g) (names : List String)
    (rs : List Resolved) : (markFrom names rs).map g = rs.map g := by
  induction rs generalizing names with
  | nil => rfl
  | cons r rs ih => rw [markFrom, List.map_cons, mark_frame hg, ih, List.map_cons]

theorem markUnresolved_frame (hg : IgnoresFaults g)
    (r : Resolved) : g (markUnresolved r) = g r := by
  rw [markUnresolved]
  split
  · exact hg _ _
  · rfl

end Frame

/-! ## Entries -/

/-- The names that formulas may refer to: the fields and each other. -/
def allowed (fields : List String) (pairs : List (String × String)) : List String :=
  fields ++ (Formula.latest pairs).map Formula.name

/-- A formula before any marking: the faults are those of its own tokens and of circles. -/
def unmarked (fields : List String) (pairs : List (String × String)) (f : Formula) : Resolved :=
  resolveOne (graph (Formula.latest pairs)) (allowed fields pairs)
    ((Formula.latest pairs).map Formula.name) (layers pairs) f

/-- The formulas before any marking, in the order of their layers. -/
def ordered (fields : List String) (pairs : List (String × String)) : List Resolved :=
  byLayer ((Formula.latest pairs).map (unmarked fields pairs))

theorem resolve_eq (fields : List String) (pairs : List (String × String)) :
    resolve fields pairs =
      (markFrom (broken (ordered fields pairs)) (ordered fields pairs)).map markUnresolved := rfl

/-- What is read off the entries besides their faults is as it was before the marking. -/
theorem map_resolve {α : Type} {g : Resolved → α} (fields : List String)
    (pairs : List (String × String)) (hg : IgnoresFaults g) :
    (resolve fields pairs).map g = (ordered fields pairs).map g := by
  have hmark : g ∘ markUnresolved = g := funext (markUnresolved_frame hg)
  rw [resolve_eq, List.map_map, hmark, map_markFrom hg]

theorem ordered_perm (fields : List String) (pairs : List (String × String)) :
    (ordered fields pairs).Perm ((Formula.latest pairs).map (unmarked fields pairs)) :=
  List.mergeSort_perm _ _

theorem mem_ordered :
    r ∈ ordered fields pairs ↔ ∃ f, Defines pairs f ∧ unmarked fields pairs f = r := by
  rw [(ordered_perm fields pairs).mem_iff, List.mem_map]
  simp only [mem_latest]

/-- Entries with lower layers come first. -/
theorem pairwise_layer_ordered (fields : List String) (pairs : List (String × String)) :
    (ordered fields pairs).Pairwise fun a b => a.layer ≤ b.layer := by
  have htrans (a b c : Resolved) : decide (a.layer ≤ b.layer) = true →
      decide (b.layer ≤ c.layer) = true → decide (a.layer ≤ c.layer) = true := by
    simp only [decide_eq_true_eq]
    omega
  have htotal (a b : Resolved) :
      (decide (a.layer ≤ b.layer) || decide (b.layer ≤ a.layer)) = true := by
    simp only [Bool.or_eq_true, decide_eq_true_eq]
    omega
  exact (List.pairwise_mergeSort htrans htotal _).imp of_decide_eq_true

theorem pairwise_layer_resolve (fields : List String) (pairs : List (String × String)) :
    (resolve fields pairs).Pairwise fun a b => a.layer ≤ b.layer := by
  have hle : ((ordered fields pairs).map Resolved.layer).Pairwise (· ≤ ·) :=
    List.pairwise_map.mpr (pairwise_layer_ordered fields pairs)
  rw [← map_resolve fields pairs fun _ _ => rfl] at hle
  exact List.pairwise_map.mp hle

/-- The entries are those of the defined formulas. -/
theorem formula_resolve_perm (fields : List String) (pairs : List (String × String)) :
    ((resolve fields pairs).map Resolved.formula).Perm (Formula.latest pairs) := by
  have hperm := (ordered_perm fields pairs).map Resolved.formula
  have hid : Resolved.formula ∘ unmarked fields pairs = id := rfl
  rw [List.map_map, hid, List.map_id] at hperm
  rwa [map_resolve fields pairs fun _ _ => rfl]

theorem exists_mem_resolve_iff {f : Formula} :
    (∃ r ∈ resolve fields pairs, r.formula = f) ↔ Defines pairs f := by
  rw [← mem_latest, ← (formula_resolve_perm fields pairs).mem_iff, List.mem_map]

/-- No two entries have the same name. -/
theorem nodup_name_resolve (fields : List String) (pairs : List (String × String)) :
    ((resolve fields pairs).map Resolved.name).Nodup := by
  have hmap : (resolve fields pairs).map Resolved.name =
      ((resolve fields pairs).map Resolved.formula).map Formula.name := by
    rw [List.map_map]
    rfl
  rw [hmap, ((formula_resolve_perm fields pairs).map Formula.name).nodup_iff]
  exact nodup_name_latest pairs

/-- What stands in an entry besides its faults. -/
structure Entry (pairs : List (String × String)) (r : Resolved) : Prop where
  defines : Defines pairs r.formula
  dependencies : r.dependencies = needs pairs r.name
  layer : r.layer = layerOf pairs r.name

theorem entry_of_mem (h : r ∈ resolve fields pairs) : Entry pairs r := by
  -- All that an entry has besides its faults, read off in one go.
  have hmem : (r.formula, r.dependencies, r.layer) ∈
      (resolve fields pairs).map fun r => (r.formula, r.dependencies, r.layer) :=
    List.mem_map_of_mem h
  rw [map_resolve fields pairs fun _ _ => rfl] at hmem
  obtain ⟨s, hs, heq⟩ := List.mem_map.mp hmem
  obtain ⟨f, hf, rfl⟩ := mem_ordered.mp hs
  rw [Prod.mk.injEq, Prod.mk.injEq] at heq
  obtain ⟨hformula, hdeps, hlayer⟩ := heq
  have hname : r.name = f.name := congrArg Formula.name hformula.symm
  refine ⟨hformula ▸ hf, ?_, ?_⟩
  · rw [← hdeps, hname]
    rfl
  · rw [← hlayer, hname]
    rfl

theorem exists_mem_resolve (fields : List String) {n : String} (h : Defined pairs n) :
    ∃ r ∈ resolve fields pairs, r.name = n := by
  obtain ⟨f, hf, rfl⟩ := h
  obtain ⟨r, hr, rfl⟩ := exists_mem_resolve_iff.mpr hf
  exact ⟨r, hr, rfl⟩

theorem Entry.defined (h : Entry pairs r) : Defined pairs r.name := ⟨r.formula, h.defines, rfl⟩

theorem Entry.mem_dependencies (h : Entry pairs r) {n : String} :
    n ∈ r.dependencies ↔ Reaches pairs r.name n ∧ Defined pairs n := by
  rw [h.dependencies, mem_needs]

theorem Entry.layer_eq_zero_iff (h : Entry pairs r) : r.layer = 0 ↔ Entangled pairs r.name := by
  rw [h.layer, layerOf_eq_zero_iff h.defined]

/-! ## Dependencies and layers -/

/-- The highest layer of the entries with the given names, zero if there are none. -/
def highest (rs : List Resolved) (names : List String) : Nat :=
  ((rs.filter fun r => r.name ∈ names).map Resolved.layer).max?.getD 0

/-- An entry that is not entangled lies directly above the highest of its dependencies. -/
theorem layer_eq_one_add_highest (h : r ∈ resolve fields pairs) (hpos : r.layer ≠ 0) :
    r.layer = 1 + highest (resolve fields pairs) r.dependencies := by
  have he := entry_of_mem h
  rw [he.layer] at hpos ⊢
  rw [he.dependencies]
  -- The layers of the dependencies are lower, and one of them is directly below.
  apply eq_one_add_max (by omega)
  · intro l hl
    obtain ⟨d, hd, rfl⟩ := List.mem_map.mp hl
    obtain ⟨hmem, hneed⟩ := List.mem_filter.mp hd
    rw [(entry_of_mem hmem).layer]
    exact (layerOf_lt (by omega) (of_decide_eq_true hneed)).2
  · intro hone
    obtain ⟨m, hm, hmn⟩ := exists_layerOf_add_one hone
    obtain ⟨d, hd, rfl⟩ := exists_mem_resolve fields (mem_needs.mp hm).2
    refine ⟨d.layer, List.mem_map_of_mem (List.mem_filter.mpr ⟨hd, decide_eq_true hm⟩), ?_⟩
    rw [(entry_of_mem hd).layer, hmn]

/-- **Layers.** There is an entry for every defined formula. Its dependencies are, in order, the
    defined names that the formula reaches. Its layer is zero if and only if the formula lies on
    a circle of references or reaches one; otherwise it is one more than the highest layer of
    the dependencies, and the length of the longest chain of references from the formula. -/
theorem dependencies_layer_resolve (fields : List String) (pairs : List (String × String)) :
    (∀ f, (∃ r ∈ resolve fields pairs, r.formula = f) ↔ Defines pairs f) ∧
      ∀ r ∈ resolve fields pairs,
        r.dependencies.Pairwise (· < ·) ∧
        (∀ n, n ∈ r.dependencies ↔ Reaches pairs r.name n ∧ Defined pairs n) ∧
        (r.layer = 0 ↔ Entangled pairs r.name) ∧
        (r.layer ≠ 0 →
          r.layer = 1 + highest (resolve fields pairs) r.dependencies ∧
          (∃ c, ReferenceChain pairs r.name c ∧ c.length = r.layer) ∧
          ∀ c, ReferenceChain pairs r.name c → c.length ≤ r.layer) := by
  refine ⟨fun f => exists_mem_resolve_iff, fun r hr => ?_⟩
  have he := entry_of_mem hr
  refine ⟨?_, fun n => he.mem_dependencies, he.layer_eq_zero_iff, fun hpos => ?_⟩
  · rw [he.dependencies]
    exact pairwise_needs pairs r.name
  · refine ⟨layer_eq_one_add_highest hr hpos, ?_⟩
    rw [he.layer] at hpos ⊢
    exact ⟨exists_referenceChain he.defined (by omega), fun c hc => length_le_layerOf hc (by omega)⟩

/-- A formula over another one. -/
theorem dependencies_layer_resolve_sum :
    ∃ r ∈ resolve [] [("Sum", "\x7bB\x7d"), ("b", "\x7bx\x7d")],
      r.name = "sum" ∧ r.layer = 2 ∧
      (∃ c, ReferenceChain [("Sum", "\x7bB\x7d"), ("b", "\x7bx\x7d")] r.name c ∧
        c.length = r.layer) := by
  have hlist : (resolve [] [("Sum", "\x7bB\x7d"), ("b", "\x7bx\x7d")]).map
      (fun r => (r.name, r.layer)) = [("b", 1), ("sum", 2)] := by
    cbv
  have hmem : ("sum", 2) ∈ [("b", 1), ("sum", 2)] := by decide
  rw [← hlist] at hmem
  obtain ⟨r, hr, heq⟩ := List.mem_map.mp hmem
  obtain ⟨hname, hlayer⟩ := Prod.mk.inj heq
  obtain ⟨-, -, -, hchain⟩ := (dependencies_layer_resolve _ _).2 r hr
  exact ⟨r, hr, hname, hlayer, (hchain (by omega)).2.1⟩

end Resolution

end Formulary
