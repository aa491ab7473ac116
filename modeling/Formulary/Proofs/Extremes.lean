/-
  Formulary.Proofs.Extremes

  The greatest and the least of some texts.

  Both extremes go through their arguments with a text for the result so far, which is printed and
  read again at every step. What one step preserves is that the result is the extreme of the
  arguments seen (`IsExtreme.step`), since a number read from its text has the rank of the number
  printed (`rank_read_print`). By induction it is then the extreme of all (`isExtreme_extreme`).

  The two differ in the rank of a number only: the least number is the greatest one in the opposite
  order (`ranksBy_max`, `ranksBy_min`). Numbers of one rank have the same text, so arguments in
  another order, or some of them twice, have the same extreme (`IsExtreme.unique`).
-/

import Formulary.Builtin.Numeric
import Formulary.Proofs.Comparisons
import Formulary.Proofs.RoundTrip

namespace Formulary

/-! ## Ranks -/

namespace Binary64

variable {x y : Binary64}

/-- One number is not above another if it compares as less or equal. -/
instance : LE Binary64 where
  le x y := (x.compare? y).any Ordering.isLE = true

/-- The place of a number in the order, for `nan` that of zero. -/
def rank (x : Binary64) : ℤ ×ₗ ℤ := toLex (x.place?.getD (0, 0))

/-- Numbers compare as their ranks do. -/
theorem compare?_eq (hx : x.isNaN = false) (hy : y.isNaN = false) :
    x.compare? y = some (compare x.rank y.rank) := by
  cases x <;> cases y <;> first | exact absurd hx (by decide) | exact absurd hy (by decide) | rfl

theorem compare?_of_isNaN (h : x.isNaN = true ∨ y.isNaN = true) : x.compare? y = none := by
  cases x <;> cases y <;> simp_all [isNaN, compare?, place?]

theorem le_iff : x ≤ y ↔ x.isNaN = false ∧ y.isNaN = false ∧ x.rank ≤ y.rank := by
  show (x.compare? y).any Ordering.isLE = true ↔ _
  cases hx : x.isNaN with
  | true => simp [compare?_of_isNaN (.inl hx)]
  | false =>
    cases hy : y.isNaN with
    | true => simp [compare?_of_isNaN (.inr hy)]
    | false => simp [compare?_eq hx hy, Ordering.isLE_iff_ne_gt, compare_le_iff_le]

/-- Numbers of one rank are the same but for the sign of a zero, which is not printed. -/
theorem print_eq_of_rank_eq (hx : x.isNaN = false) (hy : y.isNaN = false)
    (h : x.rank = y.rank) : Decimal.print x = Decimal.print y := by
  cases x with
  | nan => exact absurd hx (by decide)
  | infinite s =>
    cases y with
    | nan => exact absurd hy (by decide)
    | infinite t => cases s <;> cases t <;> first | rfl | exact absurd h (by decide)
    | finite t v hv =>
      have hside : (if s then -1 else 1 : ℤ) = 0 := congrArg (fun p => (ofLex p).1) h
      split at hside <;> omega
  | finite s u hu =>
    cases y with
    | nan => exact absurd hy (by decide)
    | infinite t =>
      have hside : 0 = (if t then -1 else 1 : ℤ) := congrArg (fun p => (ofLex p).1) h
      split at hside <;> omega
    | finite t v hv =>
      have hunits : (if s then -(u : ℤ) else u) = if t then -(v : ℤ) else v :=
        congrArg (fun p => (ofLex p).2) h
      -- Only the two zeros share a key without being the same number.
      by_cases hu0 : u = 0
      · have hv0 : v = 0 := by
          split at hunits <;> split at hunits <;> omega
        have hx0 : (finite s u hu).isZero = true := beq_iff_eq.mpr hu0
        have hy0 : (finite t v hv).isZero = true := beq_iff_eq.mpr hv0
        rw [Decimal.print_of_isZero hx0, Decimal.print_of_isZero hy0]
      · have hsame : s = t ∧ u = v := by
          cases s <;> cases t <;> simp at hunits ⊢ <;> omega
        obtain ⟨rfl, rfl⟩ := hsame
        rfl

theorem isNaN_read_print (h : x.isNaN = false) :
    (Decimal.read (Decimal.print x)).isNaN = false :=
  (isNaN_of_compare? (Decimal.compare?_read_print h)).1

/-- A number read from its text has the rank of the number printed. -/
theorem rank_read_print (h : x.isNaN = false) :
    (Decimal.read (Decimal.print x)).rank = x.rank := by
  have heq := Decimal.compare?_read_print h
  rwa [compare?_eq (isNaN_read_print h) h, Option.some.injEq, compare_eq_iff_eq] at heq

end Binary64

namespace Builtin

open Decimal (read print)

variable {L : Type} [LinearOrder L] {pick : Binary64 → Binary64 → Binary64} {key : Binary64 → L}
variable {args others seen : List String} {result : String}

/-! ## Choices by rank -/

/-- Of two numbers `pick` takes the second where its key is greater, else the first; numbers of one
    key have one text, and printing keeps the key. -/
structure RanksBy (pick : Binary64 → Binary64 → Binary64) (key : Binary64 → L) : Prop where
  pick_eq {x y : Binary64} : x.isNaN = false → y.isNaN = false →
    pick x y = if key x < key y then y else x
  print_eq {x y : Binary64} : x.isNaN = false → y.isNaN = false → key x = key y → print x = print y
  key_read_print {x : Binary64} : x.isNaN = false → key (read (print x)) = key x

theorem ranksBy_max : RanksBy Binary64.max Binary64.rank where
  pick_eq hx hy := by
    simp only [Binary64.max, Binary64.compare?_eq hx hy, Option.some.injEq, compare_lt_iff_lt]
  print_eq := Binary64.print_eq_of_rank_eq
  key_read_print := Binary64.rank_read_print

theorem ranksBy_min : RanksBy Binary64.min (OrderDual.toDual ∘ Binary64.rank) where
  pick_eq hx hy := by
    simp only [Binary64.min, Binary64.compare?_eq hx hy, Option.some.injEq, compare_gt_iff_gt]
    rfl
  print_eq := Binary64.print_eq_of_rank_eq
  key_read_print := Binary64.rank_read_print

/-! ## One step -/

/-- `result` is the extreme of some texts: `NaN` where one of them is no number, else the text of a
    number with the greatest key. -/
def IsExtreme (key : Binary64 → L) (args : List String) (result : String) : Prop :=
  ((∃ s ∈ args, ¬ IsNumeric s) ∧ result = notANumber) ∨
    ((∀ s ∈ args, IsNumeric s) ∧
      ∃ s ∈ args, (∀ t ∈ args, key (read t) ≤ key (read s)) ∧ result = print (read s))

theorem isNaN_read_notANumber : (read notANumber).isNaN = true := by decide

theorem onNumbers_of_isNumeric (op : Binary64 → Binary64 → String) {s t : String}
    (hs : IsNumeric s) (ht : IsNumeric t) : onNumbers op s t = op (read s) (read t) := by
  rw [IsNumeric] at hs ht
  rw [onNumbers, hs, ht]
  rfl

theorem onNumbers_of_not_isNumeric (op : Binary64 → Binary64 → String) {s t : String}
    (h : ¬ IsNumeric s ∨ ¬ IsNumeric t) : onNumbers op s t = notANumber := by
  simp only [IsNumeric, Bool.not_eq_false] at h
  rw [onNumbers, if_pos (Bool.or_eq_true_iff.mpr h)]

/-- The extreme of one text is what it comes to with itself. -/
theorem IsExtreme.single (hranks : RanksBy pick key) (s : String) :
    IsExtreme key [s] (onNumbers (fun x y => print (pick x y)) s s) := by
  by_cases hs : IsNumeric s
  · right
    rw [onNumbers_of_isNumeric _ hs hs, hranks.pick_eq hs hs, if_neg (lt_irrefl _)]
    simp [hs]
  · left
    rw [onNumbers_of_not_isNumeric _ (.inl hs)]
    simp [hs]

/-- One more text makes the extreme of some texts that of all of them. -/
theorem IsExtreme.step (hranks : RanksBy pick key) (h : IsExtreme key seen result) (t : String) :
    IsExtreme key (seen ++ [t]) (onNumbers (fun x y => print (pick x y)) result t) := by
  -- Once a text is no number the result is none either; until then it is the text of a number
  -- that has been seen and that no other one outranks.
  rcases h with ⟨⟨s, hs, hnot⟩, rfl⟩ | ⟨hall, s, hs, hmost, rfl⟩
  · have hnan : ¬ IsNumeric notANumber := by simp [IsNumeric, isNaN_read_notANumber]
    exact .inl ⟨⟨s, List.mem_append_left _ hs, hnot⟩, onNumbers_of_not_isNumeric _ (.inl hnan)⟩
  · have hprint : IsNumeric (print (read s)) := Binary64.isNaN_read_print (hall s hs)
    by_cases ht : IsNumeric t
    · right
      rw [onNumbers_of_isNumeric _ hprint ht, hranks.pick_eq hprint ht,
        hranks.key_read_print (hall s hs)]
      refine ⟨List.forall_mem_append.mpr ⟨hall, by simpa using ht⟩, ?_⟩
      split
      · next hlt =>
        have hbelow : ∀ r ∈ seen, key (read r) ≤ key (read t) := fun r hr =>
          (hmost r hr).trans hlt.le
        exact ⟨t, by simp, List.forall_mem_append.mpr ⟨hbelow, by simp⟩, rfl⟩
      · next hle =>
        have hbelow : key (read t) ≤ key (read s) := not_lt.mp hle
        exact ⟨s, List.mem_append_left _ hs,
          List.forall_mem_append.mpr ⟨hmost, by simpa using hbelow⟩,
          hranks.print_eq hprint (hall s hs) (hranks.key_read_print (hall s hs))⟩
    · exact .inl ⟨⟨t, by simp, ht⟩, onNumbers_of_not_isNumeric _ (.inr ht)⟩

/-! ## All steps -/

theorem IsExtreme.foldl (hranks : RanksBy pick key) (h : IsExtreme key seen result)
    (rest : List String) :
    IsExtreme key (seen ++ rest)
      (rest.foldl (onNumbers fun x y => print (pick x y)) result) := by
  induction rest generalizing seen result with
  | nil => rwa [List.append_nil]
  | cons t rest ih =>
    rw [List.foldl_cons, List.append_cons]
    exact ih (h.step hranks t)

theorem isExtreme_extreme (hranks : RanksBy pick key) (hne : args ≠ []) :
    IsExtreme key args (extreme pick args) := by
  cases args with
  | nil => exact absurd rfl hne
  | cons s rest => exact (IsExtreme.single hranks s).foldl hranks rest

/-! ## What the extreme depends on -/

/-- The same texts have the same extreme, in whatever order and however often they stand. -/
theorem IsExtreme.unique (hranks : RanksBy pick key) {result' : String}
    (h : IsExtreme key args result) (h' : IsExtreme key others result')
    (hmem : ∀ s, s ∈ others ↔ s ∈ args) : result' = result := by
  rcases h with ⟨⟨s, hs, hnot⟩, rfl⟩ | ⟨hall, s, hs, hmost, rfl⟩ <;>
    rcases h' with ⟨⟨t, ht, hnot'⟩, rfl⟩ | ⟨hall', t, ht, hmost', rfl⟩
  · rfl
  · exact absurd (hall' s ((hmem s).mpr hs)) hnot
  · exact absurd (hall t ((hmem t).mp ht)) hnot'
  · exact hranks.print_eq (hall' t ht) (hall s hs)
      (le_antisymm (hmost t ((hmem t).mp ht)) (hmost' s ((hmem s).mpr hs)))

theorem IsExtreme.eq_notANumber_iff (h : IsExtreme key args result) :
    result = notANumber ↔ ∃ s ∈ args, ¬ IsNumeric s := by
  rcases h with ⟨hsome, rfl⟩ | ⟨hall, s, hs, -, rfl⟩
  · exact iff_of_true rfl hsome
  · refine iff_of_false (fun heq => ?_) (by simpa using hall)
    have hprint := Binary64.isNaN_read_print (hall s hs)
    rw [heq, isNaN_read_notANumber] at hprint
    exact Bool.noConfusion hprint

/-- The extreme of some texts is its own extreme. -/
theorem IsExtreme.onNumbers_self (hranks : RanksBy pick key) (h : IsExtreme key args result) :
    onNumbers (fun x y => print (pick x y)) result result = result := by
  rcases h with ⟨-, rfl⟩ | ⟨hall, s, hs, -, rfl⟩
  · exact onNumbers_of_not_isNumeric _ (.inl (by simp [IsNumeric, isNaN_read_notANumber]))
  · have hprint : IsNumeric (print (read s)) := Binary64.isNaN_read_print (hall s hs)
    rw [onNumbers_of_isNumeric _ hprint hprint, hranks.pick_eq hprint hprint, if_neg (lt_irrefl _)]
    exact hranks.print_eq hprint (hall s hs) (hranks.key_read_print (hall s hs))

/-- The extreme of some texts stands for them in front of others. -/
theorem extreme_append (hranks : RanksBy pick key) (hne : args ≠ []) (rest : List String) :
    extreme pick (extreme pick args :: rest) = extreme pick (args ++ rest) := by
  have hself := (isExtreme_extreme hranks hne).onNumbers_self hranks
  cases args with
  | nil => exact absurd rfl hne
  | cons s tail =>
    calc extreme pick (extreme pick (s :: tail) :: rest)
      _ = rest.foldl (onNumbers fun x y => print (pick x y)) (extreme pick (s :: tail)) :=
        congrArg (rest.foldl _) hself
      _ = extreme pick (s :: tail ++ rest) := (List.foldl_append ..).symm

/-- That a function gives the extreme of some texts, where `extremal` says which numbers are the
    extremes of a set. -/
structure GivesExtreme (f : List String → String) (extremal : Set Binary64 → Binary64 → Prop)
    (args : List String) : Prop where
  eq_nan_iff : f args = "NaN" ↔ ∃ s ∈ args, ¬ IsNumeric s
  exists_extremal : (∀ s ∈ args, IsNumeric s) → ∃ x, extremal {x | x ∈ args.map read} x
  eq_print (x : Binary64) : extremal {x | x ∈ args.map read} x → f args = print x
  eq_of_mem_iff (others : List String) : (∀ s, s ∈ others ↔ s ∈ args) → f others = f args
  append (rest : List String) : f (f args :: rest) = f (args ++ rest)

theorem givesExtreme_of_ranksBy {extremal : Set Binary64 → Binary64 → Prop}
    (hranks : RanksBy pick key)
    (hextremal : ∀ xs x, extremal xs x ↔
      x ∈ xs ∧ ∀ y ∈ xs, y.isNaN = false ∧ x.isNaN = false ∧ key y ≤ key x)
    (hne : args ≠ []) : GivesExtreme (extreme pick) extremal args where
  eq_nan_iff := (isExtreme_extreme hranks hne).eq_notANumber_iff
  exists_extremal hall := by
    rcases isExtreme_extreme hranks hne with ⟨⟨s, hs, hnot⟩, -⟩ | ⟨-, s, hs, hmost, -⟩
    · exact absurd (hall s hs) hnot
    · refine ⟨read s, (hextremal _ _).mpr ⟨List.mem_map_of_mem hs, fun y hy => ?_⟩⟩
      obtain ⟨t, ht, rfl⟩ := List.mem_map.mp hy
      exact ⟨hall t ht, hall s hs, hmost t ht⟩
  eq_print x hx := by
    obtain ⟨hmem, hmost⟩ := (hextremal _ _).mp hx
    obtain ⟨s, hs, rfl⟩ := List.mem_map.mp hmem
    have hprint : IsExtreme key args (print (read s)) :=
      .inr ⟨fun t ht => (hmost _ (List.mem_map_of_mem ht)).1, s, hs,
        fun t ht => (hmost _ (List.mem_map_of_mem ht)).2.2, rfl⟩
    exact hprint.unique hranks (isExtreme_extreme hranks hne) fun _ => Iff.rfl
  eq_of_mem_iff others hmem := by
    have hothers : others ≠ [] := by
      obtain ⟨s, hs⟩ := List.exists_mem_of_ne_nil args hne
      exact List.ne_nil_of_mem ((hmem s).mpr hs)
    exact (isExtreme_extreme hranks hne).unique hranks (isExtreme_extreme hranks hothers) hmem
  append := extreme_append hranks hne

/-- **Extremes.** The greatest of some texts is the text of the greatest number among them, and the
    least that of the least, unless one of them is no number. Their order and repetitions do not
    matter, and the extreme of the first ones can stand for them. -/
theorem extremes_of_texts (hne : args ≠ []) :
    GivesExtreme max IsGreatest args ∧ GivesExtreme min IsLeast args := by
  refine ⟨givesExtreme_of_ranksBy ranksBy_max (fun xs x => ?_) hne,
    givesExtreme_of_ranksBy ranksBy_min (fun xs x => ?_) hne⟩
  · simp only [IsGreatest, upperBounds, Set.mem_ofPred_eq, Binary64.le_iff]
  · simp only [IsLeast, lowerBounds, Set.mem_ofPred_eq, Binary64.le_iff, Function.comp_apply,
      OrderDual.toDual_le_toDual, and_left_comm]

/-- Both zeros and sixteen in two notations: the least is a zero, written without its sign. -/
theorem extremes_of_zeros :
    ["0x10", "-0", "16", "0"] ≠ [] ∧
    max ["0x10", "-0", "16", "0"] = "16" ∧ min ["0x10", "-0", "16", "0"] = "0" ∧
    max ["0", "-0", "0x10", "16", "-0"] = max ["0x10", "-0", "16", "0"] ∧
    min (min ["0x10", "-0", "16", "0"] :: ["ten"]) = "NaN" := by
  have hne : ["0x10", "-0", "16", "0"] ≠ [] := List.cons_ne_nil _ _
  obtain ⟨hmax, hmin⟩ := extremes_of_texts hne
  refine ⟨hne, by decide +kernel, by decide +kernel, hmax.eq_of_mem_iff _ (by simp; tauto), ?_⟩
  rw [hmin.append]
  decide +kernel

end Builtin

end Formulary
