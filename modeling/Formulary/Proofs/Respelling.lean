/-
  Formulary.Proofs.Respelling

  Resolving depends on names in lower case and on the text that counts for each of them.

  Two lists of pairs may spell names differently, repeat them and have them in any order; two
  lists of fields may do the same. If every name in lower case has the same text in both, and
  the fields are the same in lower case, the entries are the same and stand in the same order,
  but for the spelling of their names (`resolve_respelled`).

    * Of the fields only those count that formulas refer to (`resolve_congr_fields`), so the
      fields can be exchanged first.
    * Entries of one name are `Counterparts` then, and the order in which entries stand is one of
      layers and names.
-/

import Formulary.Proofs.Locality
import Formulary.Worksheet

namespace Formulary

/-- An entry without the spelling of its name: the name in lower case stands in its place. -/
def Resolved.unspelled (r : Resolved) : Resolved :=
  { r with formula := { r.formula with given := r.name } }

namespace Resolution

variable {fields names : List String} {pairs others : List (String × String)}

/-! ## Fields -/

/-- Of the fields only those matter that formulas refer to. -/
theorem resolve_congr_fields (h : ∀ f, Defines pairs f → ∀ n, f.Refers n →
    (n ∈ fields.map Text.lower ↔ n ∈ names.map Text.lower)) :
    resolve fields pairs = resolve names pairs := by
  have hone : ∀ f ∈ Formula.latest pairs, unmarked fields pairs f = unmarked names pairs f := by
    intro f hf
    have hcheck : Fault.check (some (allowed fields pairs)) f.tokens =
        Fault.check (some (allowed names pairs)) f.tokens := by
      refine Fault.check_congr fun t ht hk => ?_
      rw [mem_map_lower_allowed, mem_map_lower_allowed, h f (mem_latest.mp hf) _ ⟨t, ht, hk, rfl⟩]
    rw [unmarked, unmarked, resolveOne, resolveOne, hcheck]
  have hordered : ordered fields pairs = ordered names pairs := by
    rw [ordered, ordered, List.map_congr_left hone]
  rw [resolve_eq, resolve_eq, hordered]

/-- Two choices of fields allow the same names: neither has a list, or the lists are the same in
    lower case, order and repetition aside. -/
inductive SameFields : Option (List String) → Option (List String) → Prop where
  | unlisted : SameFields none none
  | listed {fields names : List String}
      (h : ∀ n, n ∈ fields.map Text.lower ↔ n ∈ names.map Text.lower) :
      SameFields (some fields) (some names)

/-- A name that some formula refers to is among the names referred to. -/
theorem mem_map_lower_referredNames {f : Formula} (hf : Defines pairs f) {n : String}
    (h : f.Refers n) : n ∈ (Worksheet.referredNames pairs).map Text.lower := by
  obtain ⟨before, p, after, rfl, rfl, -⟩ := hf
  obtain ⟨t, ht, hk, rfl⟩ := h
  refine List.mem_map_of_mem ?_
  rw [Worksheet.referredNames, List.mem_flatMap]
  refine ⟨p, by simp, List.mem_map_of_mem (List.mem_filter.mpr ⟨ht, ?_⟩)⟩
  exact decide_eq_true hk

/-! ## Texts -/

/-- Lists of pairs give the same texts to all names if their formulas have the same names and
    texts. -/
theorem sameText_of_latest (h : (Formula.latest pairs).map (fun f => (f.name, f.text)) =
    (Formula.latest others).map fun f => (f.name, f.text)) (n : String) :
    SameText pairs others n := by
  have hmem (ps : List (String × String)) (s : String) :
      (n, s) ∈ (Formula.latest ps).map (fun f => (f.name, f.text)) ↔
        ∃ f, Defines ps f ∧ f.name = n ∧ f.text = s := by
    simp only [List.mem_map, mem_latest, Prod.mk.injEq]
  by_cases hn : Defined pairs n
  · obtain ⟨f, hf, hfn⟩ := hn
    have hf' := (hmem pairs f.text).mpr ⟨f, hf, hfn, rfl⟩
    obtain ⟨g, hg, hgn, htext⟩ := (hmem others f.text).mp (h ▸ hf')
    exact .inr ⟨f, g, hf, hg, hfn, hgn, htext.symm⟩
  · refine .inl ⟨hn, ?_⟩
    rintro ⟨g, hg, hgn⟩
    have hg' := (hmem others g.text).mpr ⟨g, hg, hgn, rfl⟩
    obtain ⟨f, hf, hfn, -⟩ := (hmem pairs g.text).mp (h.symm ▸ hg')
    exact hn ⟨f, hf, hfn⟩

theorem Counterparts.unspelled_eq {r s : Resolved} (h : Counterparts fields pairs others r s) :
    r.unspelled = s.unspelled := by
  have hformula : ({ r.formula with given := r.name } : Formula) =
      { s.formula with given := s.name } :=
    congrArg₂ (fun n t => (⟨n, n, t⟩ : Formula)) h.name_eq h.text_eq
  rw [Resolved.unspelled, Resolved.unspelled, hformula, h.dependencies_eq, h.layer_eq, h.faults_eq]

/-- Every entry of the one run has a counterpart in the other. -/
theorem map_unspelled_subset (h : ∀ n, SameText pairs others n) :
    (resolve fields pairs).map Resolved.unspelled ⊆
      (resolve fields others).map Resolved.unspelled := by
  intro u hu
  obtain ⟨r, hr, rfl⟩ := List.mem_map.mp hu
  obtain ⟨s, hs, hname⟩ := exists_mem_resolve fields ((h r.name).defined_iff.mp
    (entry_of_mem hr).defined)
  have hrs : Counterparts fields pairs others r s := ⟨hr, hs, hname.symm, fun m _ => h m⟩
  rw [hrs.unspelled_eq]
  exact List.mem_map_of_mem hs

/-- The spelling of a name has no part in the order of entries. -/
theorem pairwise_before_unspelled (fields : List String) (pairs : List (String × String)) :
    ((resolve fields pairs).map Resolved.unspelled).Pairwise Before :=
  List.pairwise_map.mpr (pairwise_before_resolve fields pairs)

theorem nodup_of_pairwise_before {rs : List Resolved} (h : rs.Pairwise Before) : rs.Nodup := by
  refine h.imp ?_
  rintro r s hbefore rfl
  exact Before.irrefl r hbefore

theorem map_unspelled_resolve (h : ∀ n, SameText pairs others n) :
    (resolve fields pairs).map Resolved.unspelled =
      (resolve fields others).map Resolved.unspelled := by
  have hleft := pairwise_before_unspelled fields pairs
  have hright := pairwise_before_unspelled fields others
  have hmem (u : Resolved) : u ∈ (resolve fields pairs).map Resolved.unspelled ↔
      u ∈ (resolve fields others).map Resolved.unspelled :=
    ⟨fun hu => map_unspelled_subset h hu, fun hu => map_unspelled_subset (fun n => (h n).symm) hu⟩
  -- Both lists are in an order that no two entries have both ways.
  refine List.Perm.eq_of_pairwise (fun r s _ _ hrs hsr => absurd hsr hrs.asymm) hleft hright ?_
  exact (List.perm_ext_iff_of_nodup (nodup_of_pairwise_before hleft)
    (nodup_of_pairwise_before hright)).mpr hmem

/-- Fields that agree on what the formulas refer to, and pairs that agree on all texts. -/
theorem map_unspelled_resolve_of_refers (h : ∀ n, SameText pairs others n)
    (hfields : ∀ f, Defines pairs f → ∀ n, f.Refers n →
      (n ∈ fields.map Text.lower ↔ n ∈ names.map Text.lower)) :
    (resolve fields pairs).map Resolved.unspelled =
      (resolve names others).map Resolved.unspelled := by
  rw [resolve_congr_fields hfields, map_unspelled_resolve h]

/-- **Spelling.** Two lists of pairs that give every name in lower case the same text, with fields
    that are the same in lower case, have the same entries in the same order, as they are
    resolved and in a worksheet. Only the spelling of a name may differ in an entry: it is that of
    the last pair with the name. -/
theorem resolve_respelled {fields names : Option (List String)} (hfields : SameFields fields names)
    (htexts : ∀ n, SameText pairs others n) :
    (resolve (fields.getD []) pairs).map Resolved.unspelled =
      (resolve (names.getD []) others).map Resolved.unspelled ∧
    (Worksheet.ofPairs fields pairs).entries.map Resolved.unspelled =
      (Worksheet.ofPairs names others).entries.map Resolved.unspelled ∧
    (∀ listed, ∀ r ∈ resolve listed pairs, Defines pairs r.formula) ∧
    ∀ listed, ∀ r ∈ resolve listed others, Defines others r.formula := by
  refine ⟨?_, ?_, fun _ r hr => (entry_of_mem hr).defines, fun _ r hr => (entry_of_mem hr).defines⟩
  · cases hfields with
    | unlisted => exact map_unspelled_resolve htexts
    | listed h => exact map_unspelled_resolve_of_refers htexts fun _ _ n _ => h n
  · cases hfields with
    | unlisted =>
      -- Without a list, the names that are referred to are allowed, in both runs.
      refine map_unspelled_resolve_of_refers htexts fun f hf n hn => iff_of_true ?_ ?_
      · exact mem_map_lower_referredNames hf hn
      · obtain ⟨g, hg, -, hgn⟩ := (htexts f.name).refers (hf.refers hn)
        exact mem_map_lower_referredNames hg hgn
    | listed h => exact map_unspelled_resolve_of_refers htexts fun _ _ n _ => h n

/-- A formula over another one, with the names spelled in another way, in another order, and with
    a text that a later pair replaces. -/
theorem resolve_respelled_twice :
    let pairs := [("B", "\x7bA\x7d"), ("a", "\x7bp\x7d")]
    let others := [("A", "1 1"), ("b", "\x7bA\x7d"), ("A", "\x7bp\x7d")]
    (resolve ["p"] pairs).map Resolved.unspelled =
      (resolve ["P", "p"] others).map Resolved.unspelled ∧
    (Worksheet.ofPairs (some ["p"]) pairs).entries.map Resolved.unspelled =
      (Worksheet.ofPairs (some ["P", "p"]) others).entries.map Resolved.unspelled ∧
    (resolve ["p"] pairs).map (fun r => (r.formula.given, r.layer)) = [("a", 1), ("B", 2)] := by
  intro pairs others
  have hlower : ["p"].map Text.lower = ["p"] ∧ ["P", "p"].map Text.lower = ["p", "p"] := by
    decide +kernel
  have hfields : SameFields (some ["p"]) (some ["P", "p"]) := by
    refine .listed fun n => ?_
    rw [hlower.1, hlower.2]
    simp
  have hlatest : (Formula.latest pairs).map (fun f => (f.name, f.text)) =
      (Formula.latest others).map fun f => (f.name, f.text) := by cbv
  obtain ⟨hentries, hworksheet, -⟩ := resolve_respelled hfields (sameText_of_latest hlatest)
  exact ⟨hentries, hworksheet, by cbv⟩

end Resolution

end Formulary
