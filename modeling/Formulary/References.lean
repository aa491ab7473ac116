/-
  Formulary.References

  Who refers to whom. A name may refer to names that refer to nothing themselves, such
  as the fields of a record.

  `reachable g n` holds the names that a chain of one or more references leads to from
  `n` (`mem_reachable`); it holds `n` itself only if `n` lies on a circle.
-/

import Formulary.Names

namespace Formulary

/-- References between names, as pairs of the name that refers and the name it refers
to. -/
structure References where
  edges : List (String × String)

namespace References

/-- No references. -/
def empty : References := ⟨[]⟩

/-- One more reference. -/
def add (g : References) (source target : String) : References := ⟨(source, target) :: g.edges⟩

/-- The names that a name refers to. -/
def targets (g : References) (n : String) : List String :=
  Names.ofList ((g.edges.filter fun e => e.1 = n).map Prod.snd)

theorem mem_targets {g : References} {n t : String} : t ∈ g.targets n ↔ (n, t) ∈ g.edges := by
  simp [targets, Names.mem_ofList]

/-- The references of names that are not in a list. -/
def unseen (g : References) (seen : List String) : List (String × String) :=
  g.edges.filter fun e => e.1 ∉ seen

theorem unseen_cons (g : References) (n : String) (seen : List String) :
    g.unseen (n :: seen) = (g.unseen seen).filter fun e => e.1 ≠ n := by
  simp only [unseen, List.filter_filter, List.mem_cons, not_or]
  congr 1; funext e; simp

theorem unseen_cons_lt {g : References} {n : String} {seen : List String} (hn : n ∉ seen)
    (h : g.targets n ≠ []) : (g.unseen (n :: seen)).length < (g.unseen seen).length := by
  obtain ⟨t, ht⟩ := List.exists_mem_of_ne_nil _ h
  rw [mem_targets] at ht
  rw [unseen_cons]
  refine List.length_filter_lt_length_iff_exists.2 ⟨(n, t), ?_, by simp⟩
  simpa [unseen] using ⟨ht, hn⟩

theorem unseen_cons_le (g : References) (n : String) (seen : List String) :
    (g.unseen (n :: seen)).length ≤ (g.unseen seen).length := by
  rw [unseen_cons]
  exact List.length_filter_le _ _

/-- The names in `seen` and all that chains of references lead to from `todo`. -/
def visit (g : References) (todo seen : List String) : List String :=
  match todo with
  | [] => seen
  | n :: rest =>
    if n ∈ seen then visit g rest seen
    else if g.targets n = [] then visit g rest (n :: seen)
    else visit g (g.targets n ++ rest) (n :: seen)
termination_by ((g.unseen seen).length, todo.length)
decreasing_by
  · exact Prod.Lex.right _ (by simp)
  · exact (Nat.lt_or_eq_of_le (unseen_cons_le g n seen)).elim (Prod.Lex.left _ _)
      fun h => h ▸ Prod.Lex.right _ (by simp)
  · exact Prod.Lex.left _ _ (unseen_cons_lt ‹_› ‹_›)

/-- The names that a chain of one or more references leads to. -/
def reachable (g : References) (n : String) : List String :=
  Names.ofList (g.visit (g.targets n) [])

/-! ## Chains of references -/

/-- A chain of one or more references leads from the first name to the second. -/
inductive Leads (g : References) : String → String → Prop where
  | one {a b : String} (h : (a, b) ∈ g.edges) : Leads g a b
  | cons {a b c : String} (h : (a, b) ∈ g.edges) (rest : Leads g b c) : Leads g a c

theorem Leads.trans {g : References} {a b c : String} (h : Leads g a b) (k : Leads g b c) :
    Leads g a c := by
  induction h with
  | one h => exact .cons h k
  | cons h _ ih => exact .cons h (ih k)

/-- A search adds only what it is sent to, and what references lead to from there. -/
theorem leads_of_mem_visit {g : References} {todo seen : List String} {a : String}
    (h : a ∈ g.visit todo seen) : a ∈ seen ∨ a ∈ todo ∨ ∃ b ∈ todo, Leads g b a := by
  fun_induction visit g todo seen with
  | case1 => exact .inl h
  | case2 seen n rest _ ih =>
    rcases ih h with h | h | ⟨b, hb, h⟩
    · exact .inl h
    · exact .inr (.inl (List.mem_cons_of_mem _ h))
    · exact .inr (.inr ⟨b, List.mem_cons_of_mem _ hb, h⟩)
  | case3 seen n rest _ _ ih =>
    rcases ih h with h | h | ⟨b, hb, h⟩
    · rcases List.mem_cons.1 h with rfl | h
      · exact .inr (.inl List.mem_cons_self)
      · exact .inl h
    · exact .inr (.inl (List.mem_cons_of_mem _ h))
    · exact .inr (.inr ⟨b, List.mem_cons_of_mem _ hb, h⟩)
  | case4 seen n rest _ _ ih =>
    rcases ih h with h | h | ⟨b, hb, h⟩
    · rcases List.mem_cons.1 h with rfl | h
      · exact .inr (.inl List.mem_cons_self)
      · exact .inl h
    · rcases List.mem_append.1 h with h | h
      · exact .inr (.inr ⟨n, List.mem_cons_self, .one (mem_targets.1 h)⟩)
      · exact .inr (.inl (List.mem_cons_of_mem _ h))
    · rcases List.mem_append.1 hb with hb | hb
      · exact .inr (.inr ⟨n, List.mem_cons_self, .cons (mem_targets.1 hb) h⟩)
      · exact .inr (.inr ⟨b, List.mem_cons_of_mem _ hb, h⟩)

/-- A list of names is closed, up to a list of names still to visit, if it holds the
targets of its members. -/
def ClosedUpTo (g : References) (todo seen : List String) : Prop :=
  ∀ a ∈ seen, ∀ b, (a, b) ∈ g.edges → b ∈ seen ∨ b ∈ todo

/-- A name that is in the list already need not be visited. -/
theorem ClosedUpTo.skip {g : References} {n : String} {rest seen : List String}
    (h : ClosedUpTo g (n :: rest) seen) (hn : n ∈ seen) : ClosedUpTo g rest seen := by
  intro a ha b hab
  rcases h a ha b hab with hb | hb
  · exact .inl hb
  · rcases List.mem_cons.1 hb with rfl | hb
    · exact .inl hn
    · exact .inr hb

/-- With a name that is visited its targets are still to visit. -/
theorem ClosedUpTo.enter {g : References} {n : String} {rest seen : List String}
    (h : ClosedUpTo g (n :: rest) seen) :
    ClosedUpTo g (g.targets n ++ rest) (n :: seen) := by
  intro a ha b hab
  rcases List.mem_cons.1 ha with rfl | ha
  · exact .inr (List.mem_append_left _ (mem_targets.2 hab))
  · rcases h a ha b hab with hb | hb
    · exact .inl (List.mem_cons_of_mem _ hb)
    · rcases List.mem_cons.1 hb with rfl | hb
      · exact .inl List.mem_cons_self
      · exact .inr (List.mem_append_right _ hb)

/-- A search ends with a closed list that holds all it was sent to. -/
theorem visit_closed {g : References} {todo seen : List String} (h : ClosedUpTo g todo seen) :
    ClosedUpTo g [] (g.visit todo seen) ∧
      (∀ a ∈ todo, a ∈ g.visit todo seen) ∧ ∀ a ∈ seen, a ∈ g.visit todo seen := by
  -- Each step keeps the list closed up to what is then left to visit.
  fun_induction visit g todo seen with
  | case1 => exact ⟨h, by simp, fun _ ha => ha⟩
  | case2 seen n rest hn ih =>
    obtain ⟨hc, ht, hs⟩ := ih (h.skip hn)
    refine ⟨hc, fun a ha => ?_, hs⟩
    rcases List.mem_cons.1 ha with rfl | ha
    · exact hs _ hn
    · exact ht _ ha
  | case3 seen n rest _ hnil ih =>
    -- A name without targets is the case where nothing is added to what is left.
    have henter := h.enter
    rw [hnil, List.nil_append] at henter
    obtain ⟨hc, ht, hs⟩ := ih henter
    refine ⟨hc, fun a ha => ?_, fun a ha => hs a (List.mem_cons_of_mem _ ha)⟩
    rcases List.mem_cons.1 ha with rfl | ha
    · exact hs _ List.mem_cons_self
    · exact ht _ ha
  | case4 seen n rest _ _ ih =>
    obtain ⟨hc, ht, hs⟩ := ih h.enter
    refine ⟨hc, fun a ha => ?_, fun a ha => hs a (List.mem_cons_of_mem _ ha)⟩
    rcases List.mem_cons.1 ha with rfl | ha
    · exact hs _ List.mem_cons_self
    · exact ht _ (List.mem_append_right _ ha)

/-- A closed list that holds a name holds all that references lead to from it. -/
theorem mem_of_leads {g : References} {seen : List String} (h : ClosedUpTo g [] seen)
    {a b : String} (ha : a ∈ seen) (hab : Leads g a b) : b ∈ seen := by
  induction hab with
  | one hab => simpa using h _ ha _ hab
  | cons hab _ ih => exact ih (by simpa using h _ ha _ hab)

/-- The reachable names are those that a chain of references leads to. -/
theorem mem_reachable {g : References} {n a : String} : a ∈ g.reachable n ↔ Leads g n a := by
  rw [reachable, Names.mem_ofList]
  constructor
  · intro h
    rcases leads_of_mem_visit h with h | h | ⟨b, hb, h⟩
    · simp at h
    · exact .one (mem_targets.1 h)
    · exact .cons (mem_targets.1 hb) h
  · intro h
    have hstart : ClosedUpTo g (g.targets n) [] := fun a ha => absurd ha (by simp)
    obtain ⟨hc, ht, _⟩ := visit_closed hstart
    cases h with
    | one h => exact ht _ (mem_targets.2 h)
    | cons h rest => exact mem_of_leads hc (ht _ (mem_targets.2 h)) rest

end References

end Formulary
