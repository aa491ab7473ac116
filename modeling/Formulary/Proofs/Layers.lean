/-
  Formulary.Proofs.Layers

  The layers of formulas are exact.

    * `layered_layersFrom` says what one run of the layering leaves: a formula lies above
      all that it needs, directly above one of them unless it lies in the first layer, and
      a formula without a layer waits for another one without. It is an induction along
      the layers, where the formulas of lower layers are `done`.
    * From it, a name has a layer if it is not entangled (`layerOf_eq_zero_iff`), and the
      layer is the length of the longest chain of references (`length_le_layerOf`,
      `exists_referenceChain`).
-/

import Mathlib.Data.List.Chain
import Mathlib.Data.List.Perm.Subperm
import Formulary.Proofs.Chains

namespace Formulary

namespace Resolution

/-! ## One layer after the other -/

section Layering

variable {deps : String → List String} {done : List String}
  {pending : List (String × List String)}

/-- Every pending formula comes with what it needs. -/
def Pending (deps : String → List String) (pending : List (String × List String)) : Prop :=
  ∀ p ∈ pending, p.2 = deps p.1

/-- What the layers from `layer` on say of the pending formulas, where those in `done` lie
    in lower layers. -/
structure Layered (deps : String → List String) (layer : Nat) (done : List String)
    (pending : List (String × List String)) (layers : List (String × Nat)) : Prop where
  listed {n : String} {k : Nat} : layers.lookup n = some k → (n, deps n) ∈ pending ∧ layer ≤ k
  above {n : String} {k : Nat} : layers.lookup n = some k →
    ∀ d ∈ deps n, d ∈ done ∨ ∃ j < k, layers.lookup d = some j
  tight {n : String} {k : Nat} : layers.lookup n = some k → layer < k →
    ∃ d ∈ deps n, layers.lookup d = some (k - 1)
  stuck {n : String} : (n, deps n) ∈ pending → layers.lookup n = none →
    ∃ d ∈ deps n, d ∉ done ∧ layers.lookup d = none

theorem Pending.after (h : Pending deps pending) : Pending deps (waiting done pending) :=
  fun p hp => h p (List.mem_of_mem_filter hp)

theorem mem_ready_names (h : Pending deps pending) {n : String} :
    n ∈ (ready done pending).map Prod.fst ↔ (n, deps n) ∈ pending ∧ ∀ d ∈ deps n, d ∈ done := by
  simp only [List.mem_map, ready, List.mem_filter, List.all_eq_true, decide_eq_true_eq]
  constructor
  · rintro ⟨p, ⟨hp, hdone⟩, rfl⟩
    rw [h p hp] at hdone
    exact ⟨h p hp ▸ hp, hdone⟩
  · rintro ⟨hn, hdone⟩
    exact ⟨_, ⟨hn, hdone⟩, rfl⟩

theorem mem_waiting {n : String} :
    (n, deps n) ∈ waiting done pending ↔ (n, deps n) ∈ pending ∧ ∃ d ∈ deps n, d ∉ done := by
  simp [waiting]

/-- What is pending is ready or waits. -/
theorem mem_waiting_of_not_ready (h : Pending deps pending) {n : String}
    (hn : (n, deps n) ∈ pending) (hnot : n ∉ (ready done pending).map Prod.fst) :
    (n, deps n) ∈ waiting done pending := by
  refine mem_waiting.mpr ⟨hn, ?_⟩
  by_contra hall
  push Not at hall
  exact hnot ((mem_ready_names h).mpr ⟨hn, hall⟩)

theorem lookup_layer_append (ps : List (String × List String)) (layer : Nat)
    (rest : List (String × Nat)) (n : String) :
    (ps.map (fun p => (p.1, layer)) ++ rest).lookup n =
      if n ∈ ps.map Prod.fst then some layer else rest.lookup n := by
  induction ps with
  | nil => rfl
  | cons p ps ih =>
    rw [List.map_cons, List.cons_append, Names.lookup_cons, ih, List.map_cons]
    by_cases hn : n = p.1
    · rw [if_pos hn, if_pos (hn ▸ List.mem_cons_self)]
    · rw [if_neg hn, if_congr (List.mem_cons.trans (or_iff_right hn)) rfl rfl]

variable {layer : Nat} {upper : List (String × Nat)}

/-- What is ready needs nothing that is not done, unlike the formulas of the upper layers. -/
theorem Layered.not_ready (hp : Pending deps pending)
    (h : Layered deps (layer + 1) (done ++ (ready done pending).map Prod.fst)
      (waiting done pending) upper) {n : String} {k : Nat} (hk : upper.lookup n = some k) :
    n ∉ (ready done pending).map Prod.fst := by
  intro hmem
  obtain ⟨-, d, hd, hnot⟩ := mem_waiting.mp (h.listed hk).1
  exact hnot (((mem_ready_names hp).mp hmem).2 d hd)

/-- With one more layer below, a formula lies in that layer if it is ready and where it was
    otherwise. -/
theorem Layered.lookup_below_iff (hp : Pending deps pending)
    (h : Layered deps (layer + 1) (done ++ (ready done pending).map Prod.fst)
      (waiting done pending) upper) {n : String} {k : Nat} :
    ((ready done pending).map (fun p => (p.1, layer)) ++ upper).lookup n = some k ↔
      (n ∈ (ready done pending).map Prod.fst ∧ k = layer) ∨ upper.lookup n = some k := by
  rw [lookup_layer_append]
  split
  · next hn =>
    have hup : upper.lookup n ≠ some k := fun hk => h.not_ready hp hk hn
    simp [hn, hup, eq_comm]
  · next hn => simp [hn]

/-- One more layer below layers: the formulas that are ready. -/
theorem Layered.below (hp : Pending deps pending)
    (h : Layered deps (layer + 1) (done ++ (ready done pending).map Prod.fst)
      (waiting done pending) upper) :
    Layered deps layer done pending
      ((ready done pending).map (fun p => (p.1, layer)) ++ upper) where
  listed := by
    intro n k hk
    rcases (h.lookup_below_iff hp).mp hk with ⟨hn, rfl⟩ | hk
    · exact ⟨((mem_ready_names hp).mp hn).1, Nat.le_refl _⟩
    · obtain ⟨hw, hle⟩ := h.listed hk
      exact ⟨(mem_waiting.mp hw).1, Nat.le_of_succ_le hle⟩
  above := by
    intro n k hk d hd
    rcases (h.lookup_below_iff hp).mp hk with ⟨hn, rfl⟩ | hk
    · exact .inl (((mem_ready_names hp).mp hn).2 d hd)
    · rcases h.above hk d hd with hdone | ⟨j, hj, hdj⟩
      · rcases List.mem_append.mp hdone with hdone | hready
        · exact .inl hdone
        · exact .inr ⟨layer, (h.listed hk).2, (h.lookup_below_iff hp).mpr (.inl ⟨hready, rfl⟩)⟩
      · exact .inr ⟨j, hj, (h.lookup_below_iff hp).mpr (.inr hdj)⟩
  tight := by
    intro n k hk hlt
    rcases (h.lookup_below_iff hp).mp hk with ⟨-, rfl⟩ | hk
    · exact absurd hlt (Nat.lt_irrefl k)
    · obtain ⟨hw, hle⟩ := h.listed hk
      rcases Nat.lt_or_eq_of_le hle with hlt | rfl
      · obtain ⟨d, hd, hdk⟩ := h.tight hk hlt
        exact ⟨d, hd, (h.lookup_below_iff hp).mpr (.inr hdk)⟩
      · -- In the layer above, what was not done before is ready.
        obtain ⟨-, d, hd, hnot⟩ := mem_waiting.mp hw
        refine ⟨d, hd, (h.lookup_below_iff hp).mpr (.inl ⟨?_, Nat.add_sub_cancel layer 1⟩)⟩
        rcases h.above hk d hd with hdone | ⟨j, hj, hdj⟩
        · exact (List.mem_append.mp hdone).resolve_left hnot
        · exact absurd (h.listed hdj).2 (Nat.not_le.mpr hj)
  stuck := by
    intro n hn hnone
    rw [lookup_layer_append] at hnone
    split at hnone
    · exact nomatch hnone
    · next hnot =>
      obtain ⟨d, hd, hdone, hdk⟩ := h.stuck (mem_waiting_of_not_ready hp hn hnot) hnone
      rw [List.mem_append, not_or] at hdone
      exact ⟨d, hd, hdone.1, by rw [lookup_layer_append, if_neg hdone.2, hdk]⟩

/-- **Layering.** Layers are as high as they have to be, and no higher. -/
theorem layered_layersFrom (layer : Nat) (h : Pending deps pending) :
    Layered deps layer done pending (layersFrom layer done pending) := by
  fun_induction layersFrom layer done pending with
  | case1 layer done pending hnil =>
    refine ⟨nofun, nofun, nofun, ?_⟩
    intro n hn _
    have hnot : n ∉ (ready done pending).map Prod.fst := by simp [hnil]
    obtain ⟨-, d, hd, hdone⟩ := mem_waiting.mp (mem_waiting_of_not_ready h hn hnot)
    exact ⟨d, hd, hdone, rfl⟩
  | case2 layer done pending _ ih => exact .below h (ih h.after)

end Layering

/-! ## Layers of names -/

variable {pairs : List (String × String)}

/-- The layers of the formulas that pairs define. -/
def layers (pairs : List (String × String)) : List (String × Nat) :=
  layersFrom 1 [] ((Formula.latest pairs).map fun f => (f.name, needs pairs f.name))

/-- The layer of a name, zero if it has none. -/
def layerOf (pairs : List (String × String)) (n : String) : Nat :=
  ((layers pairs).lookup n).getD 0

/-- The formulas with what they need, as they are layered. -/
theorem mem_formulas_needs {n : String} :
    (n, needs pairs n) ∈ (Formula.latest pairs).map (fun f => (f.name, needs pairs f.name)) ↔
      Defined pairs n := by
  simp only [List.mem_map, mem_latest, Prod.mk.injEq, Defined]
  constructor
  · rintro ⟨f, hf, hn, -⟩
    exact ⟨f, hf, hn⟩
  · rintro ⟨f, hf, rfl⟩
    exact ⟨f, hf, rfl, rfl⟩

theorem layered_layers (pairs : List (String × String)) :
    Layered (needs pairs) 1 []
      ((Formula.latest pairs).map fun f => (f.name, needs pairs f.name)) (layers pairs) := by
  apply layered_layersFrom
  intro p hp
  obtain ⟨f, -, rfl⟩ := List.mem_map.mp hp
  rfl

theorem layerOf_pos_iff {n : String} : 0 < layerOf pairs n ↔ (layers pairs).lookup n ≠ none := by
  rw [layerOf]
  cases hn : (layers pairs).lookup n with
  | none => simp
  | some k =>
    have hk : 0 < k := ((layered_layers pairs).listed hn).2
    simpa using hk

theorem lookup_layers {n : String} (h : 0 < layerOf pairs n) :
    (layers pairs).lookup n = some (layerOf pairs n) := by
  obtain ⟨k, hk⟩ := Option.ne_none_iff_exists'.mp (layerOf_pos_iff.mp h)
  rw [layerOf, hk, Option.getD_some]

theorem layerOf_eq {n : String} {k : Nat} (h : (layers pairs).lookup n = some k) :
    layerOf pairs n = k := by
  rw [layerOf, h, Option.getD_some]

/-- A name with a layer lies above all that it needs. -/
theorem layerOf_lt {n m : String} (h : 0 < layerOf pairs n) (hm : m ∈ needs pairs n) :
    0 < layerOf pairs m ∧ layerOf pairs m < layerOf pairs n := by
  rcases (layered_layers pairs).above (lookup_layers h) m hm with hdone | ⟨j, hj, hmj⟩
  · exact nomatch hdone
  · have hpos := layerOf_pos_iff.mpr (by rw [hmj]; exact Option.some_ne_none j)
    exact ⟨hpos, by rwa [layerOf_eq hmj]⟩

/-- A name above the first layer lies directly above something that it needs. -/
theorem exists_layerOf_add_one {n : String} (h : 1 < layerOf pairs n) :
    ∃ m ∈ needs pairs n, layerOf pairs m + 1 = layerOf pairs n := by
  obtain ⟨m, hm, hmk⟩ := (layered_layers pairs).tight (lookup_layers (by omega)) h
  exact ⟨m, hm, by rw [layerOf_eq hmk]; omega⟩

/-- What a name needs has fewer needs, if it lies on no circle. -/
theorem length_needs_lt {n m : String} (hm : m ∈ needs pairs n) (h : ¬Reaches pairs m m) :
    (needs pairs m).length < (needs pairs n).length := by
  have hnodup : (m :: needs pairs m).Nodup := by
    have hself : m ∉ needs pairs m := fun hmm => h (mem_needs.mp hmm).1
    exact List.nodup_cons.mpr ⟨hself, Names.nodup_of_pairwise (pairwise_needs pairs m)⟩
  have hsub : m :: needs pairs m ⊆ needs pairs n := by
    intro k hk
    rcases List.mem_cons.mp hk with rfl | hk
    · exact hm
    · exact mem_needs_of_mem_needs hm hk
  exact (List.subperm_of_subset hnodup hsub).length_le

/-- A formula that is not entangled gets a layer. -/
theorem layerOf_pos {n : String} (hn : Defined pairs n) (h : ¬Entangled pairs n) :
    0 < layerOf pairs n := by
  -- The number of needs shrinks along references that lead to no circle.
  induction hlen : (needs pairs n).length using Nat.strongRecOn generalizing n with
  | _ len ih =>
    subst hlen
    by_contra hzero
    have hnone : (layers pairs).lookup n = none := by
      by_contra hsome
      exact hzero (layerOf_pos_iff.mpr hsome)
    obtain ⟨m, hm, -, hmnone⟩ := (layered_layers pairs).stuck (mem_formulas_needs.mpr hn) hnone
    obtain ⟨hreach, hdef⟩ := mem_needs.mp hm
    have hfree : ¬Entangled pairs m := fun he => h (hreach.entangled he)
    have hlt := length_needs_lt hm fun hmm => hfree (.inl hmm)
    exact layerOf_pos_iff.mp (ih _ hlt hdef hfree rfl) hmnone

/-- **Circles.** A formula has no layer if and only if it is entangled. -/
theorem layerOf_eq_zero_iff {n : String} (hn : Defined pairs n) :
    layerOf pairs n = 0 ↔ Entangled pairs n := by
  constructor
  · intro hzero
    by_contra h
    have hpos := layerOf_pos hn h
    omega
  · intro h
    obtain ⟨m, hm, hmm⟩ := entangled_iff.mp h
    by_contra hne
    have hpos : 0 < layerOf pairs n := Nat.pos_of_ne_zero hne
    have hmpos : 0 < layerOf pairs m := by
      rcases hm with rfl | hreach
      · exact hpos
      · exact (layerOf_lt hpos (mem_needs.mpr ⟨hreach, hmm.defined⟩)).1
    -- A name on a circle would lie above itself.
    have hlt := (layerOf_lt hmpos (mem_needs.mpr ⟨hmm, hmm.defined⟩)).2
    omega

/-- A number above some others, and directly above one of them unless it is one. -/
theorem eq_one_add_max {k : Nat} {ls : List Nat} (hpos : 0 < k) (hlt : ∀ l ∈ ls, l < k)
    (hone : 1 < k → ∃ l ∈ ls, l + 1 = k) : k = 1 + ls.max?.getD 0 := by
  cases hmax : ls.max? with
  | none =>
    rw [List.max?_eq_none_iff] at hmax
    subst hmax
    have hle : ¬1 < k := fun h => by obtain ⟨l, hl, -⟩ := hone h; exact nomatch hl
    simp only [Option.getD_none]
    omega
  | some m =>
    obtain ⟨hm, hall⟩ := List.max?_eq_some_iff.mp hmax
    have hmk := hlt m hm
    rw [Option.getD_some]
    by_cases h : 1 < k
    · obtain ⟨l, hl, hlk⟩ := hone h
      have := hall l hl
      omega
    · omega

/-! ## Chains of references -/

/-- Defined names, from the given one on, each of which refers to the next. -/
structure ReferenceChain (pairs : List (String × String)) (n : String) (c : List String) :
    Prop where
  head : c.head? = some n
  defined : ∀ m ∈ c, Defined pairs m
  refers : c.IsChain (Refers pairs)

/-- No chain of references is longer than the layer. -/
theorem length_le_layerOf {n : String} {c : List String} (h : ReferenceChain pairs n c)
    (hpos : 0 < layerOf pairs n) : c.length ≤ layerOf pairs n := by
  induction c generalizing n with
  | nil => exact Nat.zero_le _
  | cons a rest ih =>
    obtain rfl : a = n := by simpa using h.head
    cases rest with
    | nil => exact hpos
    | cons b rest =>
      obtain ⟨hab, hrest⟩ := List.isChain_cons_cons.mp h.refers
      have hb : b ∈ needs pairs a := mem_needs.mpr ⟨.single hab, h.defined b (by simp)⟩
      obtain ⟨hbpos, hlt⟩ := layerOf_lt hpos hb
      have htail : ReferenceChain pairs b (b :: rest) :=
        ⟨rfl, fun m hm => h.defined m (List.mem_cons_of_mem _ hm), hrest⟩
      have hle := ih htail hbpos
      rw [List.length_cons]
      omega

/-- A name directly above another that it needs refers to it. -/
theorem refers_of_layerOf {n m : String} (hpos : 0 < layerOf pairs n) (hm : m ∈ needs pairs n)
    (h : layerOf pairs m + 1 = layerOf pairs n) : Refers pairs n m := by
  obtain ⟨hreach, hdef⟩ := mem_needs.mp hm
  obtain ⟨k, hnk, hkm⟩ := Relation.TransGen.head'_iff.mp hreach
  rcases Relation.reflTransGen_iff_eq_or_transGen.mp hkm with rfl | hkm
  · exact hnk
  · -- A name between the two would lie in a layer between theirs.
    have hk : k ∈ needs pairs n := mem_needs.mpr ⟨.single hnk, Reaches.defined hkm⟩
    obtain ⟨hkpos, hkn⟩ := layerOf_lt hpos hk
    have hmk := (layerOf_lt hkpos (mem_needs.mpr ⟨hkm, hdef⟩)).2
    omega

/-- Some chain of references is as long as the layer. -/
theorem exists_referenceChain {n : String} (hn : Defined pairs n) (hpos : 0 < layerOf pairs n) :
    ∃ c, ReferenceChain pairs n c ∧ c.length = layerOf pairs n := by
  -- Along the layers: what is needed from the layer just below has a chain that is one shorter.
  induction hk : layerOf pairs n using Nat.strongRecOn generalizing n with
  | _ k ih =>
    subst hk
    by_cases hone : 1 < layerOf pairs n
    · obtain ⟨m, hm, hmn⟩ := exists_layerOf_add_one hone
      obtain ⟨hmpos, hlt⟩ := layerOf_lt hpos hm
      obtain ⟨c, hc, hlen⟩ := ih _ hlt (mem_needs.mp hm).2 hmpos rfl
      refine ⟨n :: c, ⟨rfl, ?_, ?_⟩, ?_⟩
      · intro a ha
        rcases List.mem_cons.mp ha with rfl | ha
        · exact hn
        · exact hc.defined a ha
      · refine List.isChain_cons.mpr ⟨?_, hc.refers⟩
        intro a ha
        rw [hc.head, Option.mem_def, Option.some.injEq] at ha
        exact ha ▸ refers_of_layerOf hpos hm hmn
      · rw [List.length_cons, hlen, hmn]
    · refine ⟨[n], ⟨rfl, ?_, List.isChain_singleton n⟩, ?_⟩
      · intro a ha
        exact List.mem_singleton.mp ha ▸ hn
      · rw [List.length_singleton]
        omega

end Resolution

end Formulary
