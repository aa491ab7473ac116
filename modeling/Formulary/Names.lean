/-
  Formulary.Names

  Sets of names, as lists in order of code points without repetition.
-/

namespace Formulary

namespace Names

/-- The set with one more name. -/
def insert (n : String) : List String → List String
  | [] => [n]
  | m :: ms => if n < m then n :: m :: ms else if m < n then m :: insert n ms else m :: ms

/-- The set of the names in a list. -/
def ofList (ns : List String) : List String := ns.foldr insert []

theorem mem_insert {a n : String} {ns : List String} : a ∈ insert n ns ↔ a = n ∨ a ∈ ns := by
  induction ns with
  | nil => simp [insert]
  | cons m ms ih =>
    simp only [insert]
    split
    · simp
    · split
      · simp only [List.mem_cons, ih]
        exact ⟨fun h => by rcases h with h | h | h <;> simp [h],
          fun h => by rcases h with h | h | h <;> simp [h]⟩
      · have : n = m := String.le_antisymm (String.not_lt.1 ‹_›) (String.not_lt.1 ‹_›)
        simp [this]

theorem mem_ofList {a : String} {ns : List String} : a ∈ ofList ns ↔ a ∈ ns := by
  induction ns with
  | nil => simp [ofList]
  | cons n ns ih => exact Iff.trans (mem_insert : a ∈ insert n (ofList ns) ↔ _) (by simp [ih])

/-- Adding a name keeps the order. -/
theorem pairwise_insert {n : String} {ns : List String} (h : ns.Pairwise (· < ·)) :
    (insert n ns).Pairwise (· < ·) := by
  induction ns with
  | nil => simp [insert]
  | cons m ms ih =>
    rw [List.pairwise_cons] at h
    simp only [insert]
    split
    · next hnm =>
      refine List.pairwise_cons.2 ⟨fun a ha => ?_, List.pairwise_cons.2 h⟩
      rcases List.mem_cons.1 ha with rfl | ha
      · exact hnm
      · exact String.lt_trans hnm (h.1 a ha)
    · split
      · next hmn =>
        refine List.pairwise_cons.2 ⟨fun a ha => ?_, ih h.2⟩
        rcases mem_insert.1 ha with rfl | ha
        · exact hmn
        · exact h.1 a ha
      · exact List.pairwise_cons.2 h

theorem pairwise_ofList (ns : List String) : (ofList ns).Pairwise (· < ·) := by
  induction ns with
  | nil => exact .nil
  | cons n ns ih => exact pairwise_insert ih

/-- Names in order are without repetition. -/
theorem nodup_of_pairwise {ns : List String} (h : ns.Pairwise (· < ·)) : ns.Nodup := by
  refine h.imp ?_
  rintro a b hlt rfl
  exact String.lt_irrefl a hlt

/-- What stands under a name, if a name and its value are in front of others. -/
theorem lookup_cons {β : Type} (name : String) (value : β) (ps : List (String × β)) (n : String) :
    List.lookup n ((name, value) :: ps) = if n = name then some value else ps.lookup n := by
  rw [List.lookup_cons]
  split
  · next h => rw [if_pos (eq_of_beq h)]
  · next h => rw [if_neg (ne_of_beq_false h)]

/-- The first of the things with a name stands under it. -/
theorem lookup_map {α β : Type} (name : α → String) (value : α → β) (xs : List α) (n : String) :
    (xs.map fun a => (name a, value a)).lookup n = (xs.find? fun a => name a = n).map value := by
  induction xs with
  | nil => rfl
  | cons a xs ih =>
    rw [List.map_cons, lookup_cons, List.find?_cons, ih]
    by_cases hn : n = name a
    · rw [if_pos hn, decide_eq_true hn.symm, Option.map_some]
    · rw [if_neg hn, decide_eq_false (Ne.symm hn)]

end Names

end Formulary
