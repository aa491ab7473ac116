/-
  Formulary.Proofs.Search

  The search that finds the reachable names ends, and finds exactly them.

  A search goes in rounds (`Search.Round`). A round takes any of the names that are still to be
  looked at; a name that has not been seen before sends the search to its targets. Which name
  comes next is left open, so what holds of all runs does not depend on the order.

    * Every round lowers `Search.ahead`, so a run has no more rounds than that
      (`Rounds.add_ahead_le`).
    * `Search.Faithful` says what the names of a search have to do with the name it started
      from. A round keeps it (`Round.faithful`), hence a run does, and at the end of a run it
      says that exactly the reachable names have been seen (`Faithful.mem_seen_iff`).
    * `References.visit` is such a run (`exists_rounds_visit`).

  `reachable_ofCalls` states this for references added one after the other, with chains and
  circles of references as lists of names.
-/

import Mathlib.Data.List.Chain
import Formulary.References

namespace Formulary

theorem Names.length_insert_le (n : String) (ns : List String) :
    (insert n ns).length ≤ ns.length + 1 := by
  induction ns with
  | nil => exact Nat.le_refl _
  | cons m ms ih =>
    rw [insert]
    split
    · exact Nat.le_refl _
    · split
      · exact Nat.succ_le_succ ih
      · exact Nat.le_succ _

theorem Names.length_ofList_le (ns : List String) : (ofList ns).length ≤ ns.length := by
  induction ns with
  | nil => exact Nat.le_refl _
  | cons n ns ih => exact (length_insert_le n (ofList ns)).trans (Nat.succ_le_succ ih)

namespace References

variable {g : References} {n x y : String}

/-! ## Adding references -/

/-- References added one after the other, each given by the name that refers and the name it
    refers to. -/
def ofCalls (calls : List (String × String)) : References :=
  calls.foldl (fun g call => g.add call.1 call.2) empty

theorem edges_foldl_add (g : References) (calls : List (String × String)) :
    (calls.foldl (fun g call => g.add call.1 call.2) g).edges = calls.reverse ++ g.edges := by
  induction calls generalizing g with
  | nil => rfl
  | cons call calls ih => rw [List.foldl_cons, ih, List.reverse_cons, List.append_assoc]; rfl

theorem edges_ofCalls (calls : List (String × String)) : (ofCalls calls).edges = calls.reverse :=
  (edges_foldl_add empty calls).trans (List.append_nil _)

/-- The first name refers to the second. -/
def Refers (g : References) (a b : String) : Prop := (a, b) ∈ g.edges

theorem refers_ofCalls {calls : List (String × String)} {a b : String} :
    (ofCalls calls).Refers a b ↔ (a, b) ∈ calls := by
  rw [Refers, edges_ofCalls, List.mem_reverse]

/-! ## Rounds of a search -/

/-- A name does not have more targets than references. -/
theorem length_targets_le (g : References) (n : String) :
    (g.targets n).length ≤ (g.edges.filter fun e => e.1 = n).length := by
  have hle := Names.length_ofList_le ((g.edges.filter fun e => e.1 = n).map Prod.snd)
  rwa [List.length_map] at hle

/-- What a name's references are counted for before it is seen. -/
theorem length_unseen_cons {seen : List String} (hn : n ∉ seen) :
    (g.edges.filter fun e => e.1 = n).length + (g.unseen (n :: seen)).length =
      (g.unseen seen).length := by
  -- The unseen references are parted into those of the name and all others.
  have hown : (g.unseen seen).filter (fun e => e.1 = n) = g.edges.filter fun e => e.1 = n := by
    rw [unseen, List.filter_filter]
    apply List.filter_congr
    intro e _
    by_cases he : e.1 = n <;> simp [he, hn]
  have hrest : (g.unseen seen).filter (fun e => !decide (e.1 = n)) = g.unseen (n :: seen) := by
    rw [unseen, List.filter_filter, unseen]
    apply List.filter_congr
    intro e _
    simp [not_or]
  rw [← hown, ← hrest]
  exact (List.length_eq_length_filter_add _).symm

/-- A search: the names that are still to be looked at, and those that have been seen. -/
structure Search where
  todo : List String
  seen : List String

namespace Search

/-- A search that is sent to the targets of a name. -/
def start (g : References) (x : String) : Search := ⟨g.targets x, []⟩

/-- One round: some name that is to be looked at is passed over if it has been seen; if not, it
    is seen, and its targets are to be looked at. -/
inductive Round (g : References) : Search → Search → Prop where
  | pass {todo rest seen : List String} {n : String} (htodo : todo.Perm (n :: rest))
      (hn : n ∈ seen) : Round g ⟨todo, seen⟩ ⟨rest, seen⟩
  | look {todo rest seen : List String} {n : String} (htodo : todo.Perm (n :: rest))
      (hn : n ∉ seen) : Round g ⟨todo, seen⟩ ⟨g.targets n ++ rest, n :: seen⟩

/-- A number of rounds, one after the other. -/
inductive Rounds (g : References) : Nat → Search → Search → Prop where
  | none (s : Search) : Rounds g 0 s s
  | more {k : Nat} {s t u : Search} (first : Round g s t) (rest : Rounds g k t u) :
      Rounds g (k + 1) s u

variable {s t : Search}

/-! ## The search ends -/

/-- A search goes on as long as there is something to look at. -/
theorem exists_round (h : s.todo ≠ []) : ∃ t, Round g s t := by
  obtain ⟨todo, seen⟩ := s
  obtain ⟨n, rest, rfl⟩ := List.exists_cons_of_ne_nil h
  by_cases hn : n ∈ seen
  · exact ⟨_, .pass (.refl _) hn⟩
  · exact ⟨_, .look (.refl _) hn⟩

/-- The names that are to be looked at, and the references of names that have not been seen. -/
def ahead (g : References) (s : Search) : Nat := s.todo.length + (g.unseen s.seen).length

theorem Round.ahead_lt (h : Round g s t) : ahead g t < ahead g s := by
  cases h with
  | pass htodo hn =>
    have hlength := htodo.length_eq
    rw [List.length_cons] at hlength
    simp only [ahead]
    omega
  | @look todo rest seen n htodo hn =>
    -- The targets that join are paid for by the references that are no longer counted.
    have hlength := htodo.length_eq
    have htargets := g.length_targets_le n
    have hunseen := length_unseen_cons (g := g) hn
    rw [List.length_cons] at hlength
    simp only [ahead, List.length_append]
    omega

theorem Rounds.add_ahead_le {k : Nat} (h : Rounds g k s t) : k + ahead g t ≤ ahead g s := by
  induction h with
  | none s => omega
  | more first _ ih =>
    have hlt := first.ahead_lt
    omega

theorem ahead_start_le (g : References) (x : String) : ahead g (start g x) ≤ 2 * g.edges.length := by
  have htargets := (g.length_targets_le x).trans (List.length_filter_le _ _)
  have hunseen : (g.unseen []).length ≤ g.edges.length := List.length_filter_le _ _
  simp only [ahead, start]
  omega

/-! ## What the search finds -/

/-- A search from a name: what it has seen or has still to look at is reachable from the name, it
    misses no target of the name, and no target of what it has seen. -/
structure Faithful (g : References) (x : String) (s : Search) : Prop where
  reached : ∀ n, n ∈ s.seen ∨ n ∈ s.todo → Leads g x n
  first : ∀ n ∈ g.targets x, n ∈ s.seen ∨ n ∈ s.todo
  closed : ClosedUpTo g s.todo s.seen

theorem faithful_start (g : References) (x : String) : Faithful g x (start g x) where
  reached _ hn := .one (mem_targets.mp (hn.resolve_left List.not_mem_nil))
  first _ hn := .inr hn
  closed _ ha := absurd ha List.not_mem_nil

/-- **Step.** A round keeps a search faithful. -/
theorem Round.faithful (h : Round g s t) (hs : Faithful g x s) : Faithful g x t := by
  cases h with
  | @pass todo rest seen n htodo hn =>
    -- The name that is passed over is not missed, since it has been seen.
    have hkeep {m : String} (hm : m ∈ seen ∨ m ∈ todo) : m ∈ seen ∨ m ∈ rest := by
      rw [htodo.mem_iff, List.mem_cons] at hm
      rcases hm with hm | rfl | hm
      · exact .inl hm
      · exact .inl hn
      · exact .inr hm
    refine ⟨fun m hm => hs.reached m ?_, fun m hm => hkeep (hs.first m hm),
      fun a ha b hab => hkeep (hs.closed a ha b hab)⟩
    exact hm.imp_right fun hm => htodo.mem_iff.mpr (List.mem_cons_of_mem n hm)
  | @look todo rest seen n htodo hn =>
    have hkeep {m : String} (hm : m ∈ seen ∨ m ∈ todo) :
        m ∈ n :: seen ∨ m ∈ g.targets n ++ rest := by
      rw [htodo.mem_iff, List.mem_cons] at hm
      rcases hm with hm | rfl | hm
      · exact .inl (List.mem_cons_of_mem n hm)
      · exact .inl List.mem_cons_self
      · exact .inr (List.mem_append_right _ hm)
    have hn : Leads g x n := hs.reached n (.inr (htodo.mem_iff.mpr List.mem_cons_self))
    refine ⟨?_, fun m hm => hkeep (hs.first m hm), ?_⟩
    · rintro m (hm | hm)
      · rcases List.mem_cons.mp hm with rfl | hm
        · exact hn
        · exact hs.reached m (.inl hm)
      · rcases List.mem_append.mp hm with hm | hm
        · exact hn.trans (.one (mem_targets.mp hm))
        · exact hs.reached m (.inr (htodo.mem_iff.mpr (List.mem_cons_of_mem n hm)))
    · intro a ha b hab
      rcases List.mem_cons.mp ha with rfl | ha
      · exact .inr (List.mem_append_left _ (mem_targets.mpr hab))
      · exact hkeep (hs.closed a ha b hab)

theorem Rounds.faithful {k : Nat} (h : Rounds g k s t) (hs : Faithful g x s) : Faithful g x t := by
  induction h with
  | none s => exact hs
  | more first _ ih => exact ih (first.faithful hs)

/-- When nothing is left to be looked at, exactly the reachable names have been seen. -/
theorem Faithful.mem_seen_iff (hs : Faithful g x s) (hend : s.todo = []) :
    y ∈ s.seen ↔ y ∈ g.reachable x := by
  rw [mem_reachable]
  refine ⟨fun hy => hs.reached y (.inl hy), fun hy => ?_⟩
  have hclosed := hs.closed
  have hfirst := hs.first
  rw [hend] at hclosed hfirst
  have hseen {m : String} (hm : (x, m) ∈ g.edges) : m ∈ s.seen :=
    (hfirst m (mem_targets.mpr hm)).resolve_right List.not_mem_nil
  cases hy with
  | one hy => exact hseen hy
  | cons hm hy => exact mem_of_leads hclosed (hseen hm) hy

end Search

open Search

/-- Looking at the names in the order in which they stand is a run of the search. -/
theorem exists_rounds_visit (g : References) (todo seen : List String) :
    ∃ k, Rounds g k ⟨todo, seen⟩ ⟨[], g.visit todo seen⟩ := by
  fun_induction visit g todo seen with
  | case1 seen => exact ⟨0, .none _⟩
  | case2 seen n rest hn ih =>
    obtain ⟨k, hk⟩ := ih
    exact ⟨k + 1, .more (.pass (.refl _) hn) hk⟩
  | case3 seen n rest hn hnil ih =>
    obtain ⟨k, hk⟩ := ih
    have hround : Round g ⟨n :: rest, seen⟩ ⟨g.targets n ++ rest, n :: seen⟩ :=
      .look (.refl _) hn
    rw [hnil] at hround
    exact ⟨k + 1, .more hround hk⟩
  | case4 seen n rest hn hne ih =>
    obtain ⟨k, hk⟩ := ih
    exact ⟨k + 1, .more (.look (.refl _) hn) hk⟩

/-! ## Chains and circles -/

/-- One name leads to another if names between them make a chain of references. -/
theorem leads_iff_exists_isChain :
    Leads g x y ↔ ∃ between, List.IsChain g.Refers (x :: between ++ [y]) := by
  constructor
  · intro h
    induction h with
    | one h => exact ⟨[], List.isChain_pair.mpr h⟩
    | @cons a b c h _ ih =>
      obtain ⟨between, hchain⟩ := ih
      exact ⟨b :: between, List.isChain_cons_cons.mpr ⟨h, hchain⟩⟩
  · rintro ⟨between, h⟩
    induction between generalizing x with
    | nil => exact .one (List.isChain_pair.mp h)
    | cons b between ih =>
      obtain ⟨hxb, hrest⟩ := List.isChain_cons_cons.mp h
      exact .cons hxb (ih hrest)

/-- Names in a circle: each refers to the next, and the last one to the first. -/
def IsCircle (g : References) (c : List String) : Prop :=
  ∃ a rest, c = a :: rest ∧ List.IsChain g.Refers (a :: rest ++ [a])

/-- A name leads to itself if and only if it lies on a circle, wherever the circle is said to
    start. -/
theorem leads_self_iff : Leads g x x ↔ ∃ c, g.IsCircle c ∧ x ∈ c := by
  constructor
  · intro h
    obtain ⟨between, hchain⟩ := leads_iff_exists_isChain.mp h
    exact ⟨x :: between, ⟨x, between, rfl, hchain⟩, List.mem_cons_self⟩
  · rintro ⟨c, ⟨a, rest, rfl, hchain⟩, hx⟩
    rcases List.mem_cons.mp hx with rfl | hx
    · exact leads_iff_exists_isChain.mpr ⟨rest, hchain⟩
    · -- The circle is cut at the name, and its two parts are put together again.
      obtain ⟨before, after, rfl⟩ := List.append_of_mem hx
      have hcut : a :: (before ++ x :: after) ++ [a] = (a :: before) ++ x :: (after ++ [a]) := by
        simp
      rw [hcut, List.isChain_split] at hchain
      exact (leads_iff_exists_isChain.mpr ⟨after, hchain.2⟩).trans
        (leads_iff_exists_isChain.mpr ⟨before, hchain.1⟩)

/-! ## Reachable names -/

/-- **Reachable names.** Whatever references are added, the search for what is reachable from a
    name ends: in whatever order it looks at names, it goes on until nothing is left to be looked
    at, it has at most two rounds for each reference, and in the end it has seen exactly the
    reachable names; one such run gives the result. The reachable names are those at the end of a
    chain of one or more references from the name, and the name itself is one if and only if it
    lies on a circle. -/
theorem reachable_ofCalls (calls : List (String × String)) (x : String) :
    let g := ofCalls calls
    (∀ a b, g.Refers a b ↔ (a, b) ∈ calls) ∧
    (∀ k s, Rounds g k (start g x) s → k ≤ 2 * calls.length ∧
      (s.todo ≠ [] → ∃ t, Round g s t) ∧
      (s.todo = [] → ∀ y, y ∈ s.seen ↔ y ∈ g.reachable x)) ∧
    (∃ k seen, Rounds g k (start g x) ⟨[], seen⟩ ∧ g.reachable x = Names.ofList seen) ∧
    (∀ y, y ∈ g.reachable x ↔ ∃ between, List.IsChain g.Refers (x :: between ++ [y])) ∧
    (x ∈ g.reachable x ↔ ∃ c, g.IsCircle c ∧ x ∈ c) := by
  intro g
  have hlength : g.edges.length = calls.length := by
    rw [edges_ofCalls, List.length_reverse]
  refine ⟨fun a b => refers_ofCalls, fun k s hrun => ⟨?_, exists_round, fun hend y => ?_⟩, ?_,
    fun y => ?_, ?_⟩
  · have hrounds := hrun.add_ahead_le
    have hstart := ahead_start_le g x
    omega
  · exact (hrun.faithful (faithful_start g x)).mem_seen_iff hend
  · obtain ⟨k, hrun⟩ := exists_rounds_visit g (g.targets x) []
    exact ⟨k, _, hrun, rfl⟩
  · rw [mem_reachable, leads_iff_exists_isChain]
  · rw [mem_reachable, leads_self_iff]

/-- A name in front of two names that refer to each other. -/
theorem reachable_ofCalls_circle :
    let g := ofCalls [("a", "b"), ("b", "c"), ("c", "b")]
    (∃ k seen, Rounds g k (start g "a") ⟨[], seen⟩ ∧ k ≤ 6 ∧ "a" ∉ seen ∧ "c" ∈ seen) ∧
      g.reachable "a" = ["b", "c"] ∧
      (∃ between, List.IsChain g.Refers ("a" :: between ++ ["c"])) ∧
      ∃ c, g.IsCircle c ∧ "b" ∈ c := by
  intro g
  have hab : g.targets "a" = ["b"] := by decide +kernel
  have hbc : g.targets "b" = ["c"] := by decide +kernel
  have hcb : g.targets "c" = ["b"] := by decide +kernel
  have ha : g.reachable "a" = ["b", "c"] := by
    have hvisit : g.visit ["b"] [] = ["c", "b"] := by simp [visit, hbc, hcb]
    rw [reachable, hab, hvisit]
    decide +kernel
  have hb : g.reachable "b" = ["b", "c"] := by
    have hvisit : g.visit ["c"] [] = ["b", "c"] := by simp [visit, hbc, hcb]
    rw [reachable, hbc, hvisit]
    decide +kernel
  obtain ⟨-, hruns, ⟨k, seen, hrun, -⟩, hchains, -⟩ :=
    reachable_ofCalls [("a", "b"), ("b", "c"), ("c", "b")] "a"
  obtain ⟨hrounds, -, hseen⟩ := hruns k _ hrun
  refine ⟨⟨k, seen, hrun, hrounds, ?_, ?_⟩, ha, (hchains "c").mp ?_, ?_⟩
  · rw [hseen rfl, ha]
    decide
  · rw [hseen rfl, ha]
    decide
  · rw [ha]
    decide
  · obtain ⟨-, -, -, -, hcircle⟩ := reachable_ofCalls [("a", "b"), ("b", "c"), ("c", "b")] "b"
    refine hcircle.mp ?_
    rw [hb]
    decide

end References

end Formulary
