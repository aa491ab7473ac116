/-
  Formulary.Proofs.Chains

  What pairs of name and text define, and how the names refer to each other.

    * `Defines pairs f`: of the pairs with the name of `f` the last one is that of `f`.
      The formulas of `Formula.latest` are these (`mem_latest`), in the order of their
      names (`pairwise_name_latest`).
    * `Refers pairs a b`: the formula of the name `a` has a reference token whose text is
      `b` in lower case; `Reaches` is a chain of one or more such references.
    * `Entangled pairs n`: the name lies on a circle of references or reaches one.

  `mem_needs` says that the names a formula is given as its dependencies are the defined names
  that it reaches.
-/

import Mathlib.Data.List.Nodup
import Mathlib.Logic.Relation
import Formulary.Resolution

namespace Formulary

namespace Resolution

variable {pairs : List (String × String)}

/-! ## Definitions -/

/-- The formula is that of the last pair with its name. -/
def Defines (pairs : List (String × String)) (f : Formula) : Prop :=
  ∃ before p after, pairs = before ++ p :: after ∧ f = .ofPair p ∧
    ∀ q ∈ after, Text.lower q.1 ≠ f.name

/-- Some formula has the name. -/
def Defined (pairs : List (String × String)) (n : String) : Prop :=
  ∃ f, Defines pairs f ∧ f.name = n

/-- The formulas of the pairs, the last one first. -/
def allFormulas (pairs : List (String × String)) : List Formula := (pairs.map .ofPair).reverse

/-- Looking for a name from the end finds the formula of the last pair with the name. -/
theorem find?_allFormulas_eq_some_iff {n : String} {f : Formula} :
    (allFormulas pairs).find? (fun g => g.name = n) = some f ↔ Defines pairs f ∧ f.name = n := by
  rw [List.find?_eq_some_iff_append]
  constructor
  · rintro ⟨hn, later, earlier, heq, hlater⟩
    have hn : f.name = n := of_decide_eq_true hn
    -- In the order of the pairs, what was searched before stands behind.
    have hmap : pairs.map Formula.ofPair = earlier.reverse ++ f :: later.reverse := by
      rw [← List.reverse_inj, ← allFormulas, heq]
      simp
    obtain ⟨before, rest, rfl, -, hrest⟩ := List.map_eq_append_iff.mp hmap
    obtain ⟨p, after, rfl, hp, hafter⟩ := List.map_eq_cons_iff.mp hrest
    refine ⟨⟨before, p, after, rfl, hp.symm, ?_⟩, hn⟩
    intro q hq heqn
    have hmem : Formula.ofPair q ∈ later := by
      rw [← List.mem_reverse, ← hafter]
      exact List.mem_map_of_mem hq
    have hne := hlater _ hmem
    simp [Formula.ofPair, heqn, hn] at hne
  · rintro ⟨⟨before, p, after, rfl, rfl, hafter⟩, hn⟩
    refine ⟨decide_eq_true hn, (after.map .ofPair).reverse, (before.map .ofPair).reverse, ?_, ?_⟩
    · simp [allFormulas]
    · intro g hg
      obtain ⟨q, hq, rfl⟩ := List.mem_map.mp (List.mem_reverse.mp hg)
      have hne := hafter q hq
      rw [hn] at hne
      simp [Formula.ofPair, hne]

theorem latest_eq (pairs : List (String × String)) :
    Formula.latest pairs = (Names.ofList ((allFormulas pairs).map Formula.name)).filterMap fun n =>
      (allFormulas pairs).find? fun f => f.name = n := rfl

/-- Every name that occurs has a formula. -/
theorem exists_find?_allFormulas {n : String}
    (h : n ∈ Names.ofList ((allFormulas pairs).map Formula.name)) :
    ∃ f, (allFormulas pairs).find? (fun g => g.name = n) = some f := by
  rw [Names.mem_ofList] at h
  obtain ⟨f, hf, hn⟩ := List.mem_map.mp h
  apply Option.isSome_iff_exists.mp
  rw [List.find?_isSome]
  exact ⟨f, hf, by simpa using hn⟩

/-- **Definitions.** The formulas are those that the pairs define. -/
theorem mem_latest {f : Formula} : f ∈ Formula.latest pairs ↔ Defines pairs f := by
  rw [latest_eq, List.mem_filterMap]
  constructor
  · rintro ⟨n, -, hf⟩
    exact (find?_allFormulas_eq_some_iff.mp hf).1
  · intro h
    have hfind := find?_allFormulas_eq_some_iff.mpr ⟨h, rfl⟩
    refine ⟨f.name, ?_, hfind⟩
    rw [Names.mem_ofList]
    exact List.mem_map_of_mem (List.mem_of_find?_eq_some hfind)

theorem map_name_latest (pairs : List (String × String)) :
    (Formula.latest pairs).map Formula.name =
      Names.ofList ((allFormulas pairs).map Formula.name) := by
  have hname : ∀ n ∈ Names.ofList ((allFormulas pairs).map Formula.name),
      ((allFormulas pairs).find? fun f => f.name = n).map Formula.name = some n := by
    intro n hn
    obtain ⟨f, hf⟩ := exists_find?_allFormulas hn
    rw [hf, Option.map_some, (find?_allFormulas_eq_some_iff.mp hf).2]
  rw [latest_eq, List.map_filterMap, List.filterMap_congr hname, List.filterMap_some]

/-- The names are in order, and none of them has two formulas. -/
theorem pairwise_name_latest (pairs : List (String × String)) :
    ((Formula.latest pairs).map Formula.name).Pairwise (· < ·) := by
  rw [map_name_latest]
  exact Names.pairwise_ofList _

theorem nodup_name_latest (pairs : List (String × String)) :
    ((Formula.latest pairs).map Formula.name).Nodup :=
  Names.nodup_of_pairwise (pairwise_name_latest pairs)

theorem mem_name_latest {n : String} :
    n ∈ (Formula.latest pairs).map Formula.name ↔ Defined pairs n := by
  simp only [List.mem_map, mem_latest, Defined]

/-- A name has one formula. -/
theorem Defines.unique {f g : Formula} (hf : Defines pairs f) (hg : Defines pairs g)
    (h : f.name = g.name) : f = g :=
  List.inj_on_of_nodup_map (nodup_name_latest pairs) (mem_latest.mpr hf) (mem_latest.mpr hg) h

/-- The name of a formula is its given name in lower case. -/
theorem Defines.name_eq {f : Formula} (h : Defines pairs f) : f.name = Text.lower f.given := by
  obtain ⟨_, p, _, _, rfl, _⟩ := h
  rfl

/-! ## References -/

end Resolution

namespace Formula

/-- A formula has a reference token whose text is the name in lower case. -/
def Refers (f : Formula) (n : String) : Prop :=
  ∃ t ∈ f.tokens, t.kind = .reference ∧ Text.lower t.text = n

/-- The references of a token list are its reference tokens at their places. -/
theorem mem_referencesFrom {start i : Nat} {ts : List Token} {t : Token} {n : String} :
    (i, t, n) ∈ referencesFrom start ts ↔
      ∃ j, i = start + j ∧ ts[j]? = some t ∧ t.kind = .reference ∧ n = Text.lower t.text := by
  induction ts generalizing start with
  | nil => simp [referencesFrom]
  | cons u us ih =>
    -- A place is that of the first token or one further on.
    have hsplit : (∃ j, i = start + j ∧ (u :: us)[j]? = some t ∧ t.kind = .reference ∧
        n = Text.lower t.text) ↔ (i = start ∧ u = t ∧ t.kind = .reference ∧ n = Text.lower t.text) ∨
          (i, t, n) ∈ referencesFrom (start + 1) us := by
      rw [ih]
      constructor
      · rintro ⟨_ | j, rfl, hj, hrest⟩
        · exact .inl ⟨rfl, by simpa using hj, hrest⟩
        · exact .inr ⟨j, by omega, by simpa using hj, hrest⟩
      · rintro (⟨rfl, rfl, hrest⟩ | ⟨j, rfl, hj, hrest⟩)
        · exact ⟨0, rfl, rfl, hrest⟩
        · exact ⟨j + 1, by omega, by simpa using hj, hrest⟩
    rw [hsplit, referencesFrom]
    by_cases hu : u.kind = .reference
    · rw [if_pos hu, List.mem_cons, Prod.mk.injEq, Prod.mk.injEq]
      grind
    · rw [if_neg hu]
      grind

theorem exists_mem_references {f : Formula} {n : String} :
    (∃ i t, (i, t, n) ∈ f.references) ↔ f.Refers n := by
  constructor
  · rintro ⟨i, t, hmem⟩
    obtain ⟨j, -, hj, hk, rfl⟩ := mem_referencesFrom.mp hmem
    exact ⟨t, List.mem_of_getElem? hj, hk, rfl⟩
  · rintro ⟨t, ht, hk, rfl⟩
    obtain ⟨j, hj⟩ := List.mem_iff_getElem?.mp ht
    exact ⟨0 + j, t, mem_referencesFrom.mpr ⟨j, rfl, hj, hk, rfl⟩⟩

end Formula

namespace Resolution

/-- The formula of the first name refers to the second. -/
def Refers (pairs : List (String × String)) (a b : String) : Prop :=
  ∃ f, Defines pairs f ∧ f.name = a ∧ f.Refers b

/-- A chain of one or more references leads from the first name to the second. -/
def Reaches (pairs : List (String × String)) : String → String → Prop :=
  Relation.TransGen (Refers pairs)

/-- The name lies on a circle of references or reaches one. -/
def Entangled (pairs : List (String × String)) (n : String) : Prop :=
  Reaches pairs n n ∨ ∃ m, Reaches pairs n m ∧ Reaches pairs m m

theorem Defines.refers {f : Formula} (hf : Defines pairs f) {n : String} (h : f.Refers n) :
    Refers pairs f.name n := ⟨f, hf, rfl, h⟩

theorem Defines.refers_iff {f : Formula} (hf : Defines pairs f) {n : String} :
    Refers pairs f.name n ↔ f.Refers n := by
  constructor
  · rintro ⟨g, hg, hname, h⟩
    rwa [← hg.unique hf hname]
  · exact hf.refers

theorem Refers.defined {a b : String} (h : Refers pairs a b) : Defined pairs a := by
  obtain ⟨f, hf, hn, -⟩ := h
  exact ⟨f, hf, hn⟩

theorem Reaches.defined {a b : String} (h : Reaches pairs a b) : Defined pairs a := by
  obtain ⟨c, hc, -⟩ := Relation.TransGen.head'_iff.mp h
  exact hc.defined

theorem entangled_iff {n : String} :
    Entangled pairs n ↔ ∃ m, (m = n ∨ Reaches pairs n m) ∧ Reaches pairs m m := by
  constructor
  · rintro (h | ⟨m, hm, h⟩)
    · exact ⟨n, .inl rfl, h⟩
    · exact ⟨m, .inr hm, h⟩
  · rintro ⟨m, rfl | hm, h⟩
    · exact .inl h
    · exact .inr ⟨m, hm, h⟩

/-- What reaches an entangled name is entangled. -/
theorem Reaches.entangled {a b : String} (h : Reaches pairs a b) (hb : Entangled pairs b) :
    Entangled pairs a := by
  rcases hb with hb | ⟨m, hm, hmm⟩
  · exact .inr ⟨b, h, hb⟩
  · exact .inr ⟨m, h.trans hm, hmm⟩

theorem mem_graph {a b : String} :
    (a, b) ∈ (graph (Formula.latest pairs)).edges ↔ Refers pairs a b := by
  simp only [graph, List.mem_flatMap, List.mem_map, mem_latest, Refers,
    ← Formula.exists_mem_references, Prod.mk.injEq]
  constructor
  · rintro ⟨f, hf, ⟨i, t, n⟩, hmem, rfl, rfl⟩
    exact ⟨f, hf, rfl, i, t, hmem⟩
  · rintro ⟨f, hf, rfl, i, t, hmem⟩
    exact ⟨f, hf, (i, t, b), hmem, rfl, rfl⟩

theorem leads_graph {a b : String} :
    (graph (Formula.latest pairs)).Leads a b ↔ Reaches pairs a b := by
  constructor
  · intro h
    induction h with
    | one h => exact .single (mem_graph.mp h)
    | cons h _ ih => exact .head (mem_graph.mp h) ih
  · intro h
    induction h using Relation.TransGen.head_induction_on with
    | single h => exact .one (mem_graph.mpr h)
    | head h _ ih => exact .cons (mem_graph.mpr h) ih

theorem mem_reachable_graph {a b : String} :
    b ∈ (graph (Formula.latest pairs)).reachable a ↔ Reaches pairs a b := by
  rw [References.mem_reachable, leads_graph]

/-! ## Dependencies -/

/-- The defined names that a name reaches. -/
def needs (pairs : List (String × String)) (n : String) : List String :=
  ((graph (Formula.latest pairs)).reachable n).filter fun m =>
    m ∈ (Formula.latest pairs).map Formula.name

/-- **Dependencies.** A name needs the defined names that it reaches. -/
theorem mem_needs {n m : String} :
    m ∈ needs pairs n ↔ Reaches pairs n m ∧ Defined pairs m := by
  rw [needs, List.mem_filter, mem_reachable_graph, decide_eq_true_eq, mem_name_latest]

theorem pairwise_needs (pairs : List (String × String)) (n : String) :
    (needs pairs n).Pairwise (· < ·) :=
  (Names.pairwise_ofList _).filter _

theorem mem_needs_of_mem_needs {n m k : String} (hm : m ∈ needs pairs n) (hk : k ∈ needs pairs m) :
    k ∈ needs pairs n := by
  rw [mem_needs] at hm hk ⊢
  exact ⟨hm.1.trans hk.1, hk.2⟩

end Resolution

end Formulary
