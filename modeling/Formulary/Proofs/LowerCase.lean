/-
  Formulary.Proofs.LowerCase

  A text in lower case is its own lower case (`lower_lower`).

  The table of runs is the reason: what a run maps to lies in no run (`apart_lowerRuns`, a
  comparison of every two runs), so a character that has been mapped is not mapped again.
  The two forms of the small sigma are in no run either, and a capital sigma does not come
  out of any mapping. So whatever stands around a character in lower case, it stays
  (`lowerAfter_of_settled`).
-/

import Mathlib
import Formulary.Text.Case

namespace Formulary.Text

/-! ## Runs -/

/-- Whether a run maps a code point. -/
def holds (n : Nat) (run : Nat × Nat × Nat × Int) : Bool :=
  run.1 ≤ n && n ≤ run.2.1 && (n - run.1) % run.2.2.1 == 0

/-- The code point that a run maps a code point to. -/
def target (run : Nat × Nat × Nat × Int) (n : Nat) : Nat := (Int.ofNat n + run.2.2.2).toNat

theorem mapByRuns_of_find?_eq_some {runs : List (Nat × Nat × Nat × Int)} {n : Nat}
    {run : Nat × Nat × Nat × Int} (h : runs.find? (holds n) = some run) :
    mapByRuns runs n = target run n := by
  unfold holds at h
  rw [mapByRuns, h]
  rfl

theorem mapByRuns_of_find?_eq_none {runs : List (Nat × Nat × Nat × Int)} {n : Nat}
    (h : runs.find? (holds n) = none) : mapByRuns runs n = n := by
  unfold holds at h
  rw [mapByRuns, h]

/-- Whether the targets of a run lie outside another run: before it, behind it or, if the run
    goes in steps of the other one, between its steps. -/
def apart (run other : Nat × Nat × Nat × Int) : Bool :=
  let first := target run run.1
  Nat.blt (first + (run.2.1 - run.1)) other.1 || Nat.blt other.2.1 first ||
    ((Nat.beq run.1 run.2.1 || Nat.beq (run.2.2.1 % other.2.2.1) 0) && Nat.ble other.1 first &&
      Nat.blt 0 ((first - other.1) % other.2.2.1))

/-- Whether the targets of a run are characters other than the dotted capital. -/
def hasCharTargets (run : Nat × Nat × Nat × Int) : Bool :=
  let first := target run run.1
  let last := first + (run.2.1 - run.1)
  decide (0 ≤ Int.ofNat run.1 + run.2.2.2) && (Nat.blt last 0x130 || Nat.blt 0x130 first) &&
    (Nat.blt last 0xD800 || Nat.blt 0xDFFF first && Nat.blt last 0x110000)

theorem apart_lowerRuns :
    (lowerRuns.all fun run => hasCharTargets run && lowerRuns.all (apart run)) = true := by
  decide +kernel

/-- Targets keep the distances of their code points. -/
theorem target_eq_add {run : Nat × Nat × Nat × Int} {n : Nat}
    (hrun : 0 ≤ Int.ofNat run.1 + run.2.2.2) (hn : run.1 ≤ n) :
    target run n = target run run.1 + (n - run.1) := by
  rw [target, target]
  simp only [Int.ofNat_eq_natCast] at hrun ⊢
  omega

/-- The target of a code point lies outside a run that is apart from its own. -/
theorem holds_target_of_apart {run other : Nat × Nat × Nat × Int} {n : Nat}
    (hrun : 0 ≤ Int.ofNat run.1 + run.2.2.2) (hn : holds n run = true)
    (h : apart run other = true) : holds (target run n) other = false := by
  simp only [holds, Bool.and_eq_true, decide_eq_true_eq, beq_iff_eq] at hn
  obtain ⟨⟨hle, hlast⟩, hstep⟩ := hn
  have htarget := target_eq_add hrun hle
  simp only [apart, Bool.or_eq_true, Bool.and_eq_true, Nat.blt_eq, Nat.beq_eq, Nat.ble_eq] at h
  by_contra hother
  simp only [holds, Bool.not_eq_false, Bool.and_eq_true, decide_eq_true_eq, beq_iff_eq] at hother
  obtain ⟨⟨hole, holast⟩, hostep⟩ := hother
  rcases h with (h | h) | ⟨⟨hone | hdvd, hfirst⟩, hbetween⟩
  · omega
  · omega
  · have hsame : target run n = target run run.1 := by omega
    rw [hsame] at hostep
    omega
  · -- The distance to the first target is a number of steps of the other run.
    have hdiff : target run n - other.1 = (target run run.1 - other.1) + (n - run.1) := by omega
    have hsteps : (n - run.1) % other.2.2.1 = 0 :=
      Nat.mod_eq_zero_of_dvd (Nat.dvd_trans (Nat.dvd_of_mod_eq_zero hdvd)
        (Nat.dvd_of_mod_eq_zero hstep))
    rw [hdiff, Nat.add_mod, hsteps, Nat.add_zero, Nat.mod_mod] at hostep
    omega

/-- The target of a code point lies in no run. -/
theorem find?_target_eq_none {run : Nat × Nat × Nat × Int} {n : Nat} (hmem : run ∈ lowerRuns)
    (hn : holds n run = true) : lowerRuns.find? (holds (target run n)) = none := by
  have hrun := List.all_eq_true.mp apart_lowerRuns run hmem
  rw [Bool.and_eq_true, List.all_eq_true] at hrun
  obtain ⟨htargets, hapart⟩ := hrun
  simp only [hasCharTargets, Bool.and_eq_true, decide_eq_true_eq] at htargets
  rw [List.find?_eq_none]
  intro other hother
  rw [holds_target_of_apart htargets.1.1 hn (hapart other hother)]
  exact Bool.false_ne_true

/-- The target of a code point is a character other than the dotted capital. -/
theorem isValidChar_target {run : Nat × Nat × Nat × Int} {n : Nat} (hmem : run ∈ lowerRuns)
    (hn : holds n run = true) : (target run n).isValidChar ∧ target run n ≠ 0x130 := by
  have hrun := List.all_eq_true.mp apart_lowerRuns run hmem
  rw [Bool.and_eq_true] at hrun
  have htargets := hrun.1
  simp only [hasCharTargets, Bool.and_eq_true, Bool.or_eq_true, decide_eq_true_eq,
    Nat.blt_eq] at htargets
  simp only [holds, Bool.and_eq_true, decide_eq_true_eq, beq_iff_eq] at hn
  have htarget := target_eq_add htargets.1.1 hn.1.1
  rw [Nat.isValidChar]
  omega

/-! ## Characters -/

/-- The character stays as it is in lower case, wherever it stands. -/
structure Settled (c : Char) : Prop where
  not_sigma : c.toNat ≠ 0x3A3
  lowerChar_eq : lowerChar c = [c]

/-- A character that no run maps is settled, unless it is the dotted capital. -/
theorem settled_of_find?_eq_none {c : Char} (hc : c.toNat ≠ 0x130)
    (h : lowerRuns.find? (holds c.toNat) = none) : Settled c := by
  refine ⟨?_, ?_⟩
  · intro hsigma
    rw [hsigma] at h
    exact absurd h (by decide +kernel)
  · rw [lowerChar, if_neg hc, mapByRuns_of_find?_eq_none h, Char.ofNat_toNat]

/-- What comes out of a mapping is settled. -/
theorem settled_of_mem_lowerChar {c d : Char} (h : d ∈ lowerChar c) : Settled d := by
  rw [lowerChar] at h
  split at h
  · -- The dotted capital becomes a small letter and a mark.
    have hletter : Settled 'i' := settled_of_find?_eq_none (by decide) (by decide +kernel)
    have hmark : Settled (Char.ofNat 0x307) :=
      settled_of_find?_eq_none (by decide) (by decide +kernel)
    rcases List.mem_cons.mp h with rfl | h
    · exact hletter
    · exact List.mem_singleton.mp h ▸ hmark
  · next hc =>
    rw [List.mem_singleton] at h
    subst h
    cases hfind : lowerRuns.find? (holds c.toNat) with
    | none =>
      rw [mapByRuns_of_find?_eq_none hfind, Char.ofNat_toNat]
      exact settled_of_find?_eq_none hc hfind
    | some run =>
      have hmem := List.mem_of_find?_eq_some hfind
      have hholds := List.find?_some hfind
      obtain ⟨hchar, hne⟩ := isValidChar_target hmem hholds
      have hnone := find?_target_eq_none hmem hholds
      have hnat := (Char.toNat_ofNat (target run c.toNat)).trans (if_pos hchar)
      rw [mapByRuns_of_find?_eq_some hfind]
      exact settled_of_find?_eq_none (by rwa [hnat]) (by rwa [hnat])

/-! ## Texts -/

/-- Lower case consists of settled characters. -/
theorem settled_of_mem_lowerAfter {before cs : List Char} {d : Char}
    (h : d ∈ lowerAfter before cs) : Settled d := by
  induction cs generalizing before with
  | nil => exact nomatch h
  | cons c cs ih =>
    rw [lowerAfter] at h
    rcases List.mem_append.mp h with h | h
    · split at h
      · -- A capital sigma becomes one of the two small ones.
        have hfinal : Settled (Char.ofNat 0x3C2) :=
          settled_of_find?_eq_none (by decide) (by decide +kernel)
        have hsmall : Settled (Char.ofNat 0x3C3) :=
          settled_of_find?_eq_none (by decide) (by decide +kernel)
        rw [List.mem_singleton] at h
        subst h
        split
        · exact hfinal
        · exact hsmall
      · exact settled_of_mem_lowerChar h
    · exact ih h

/-- Settled characters are their own lower case. -/
theorem lowerAfter_of_settled {before cs : List Char} (h : ∀ c ∈ cs, Settled c) :
    lowerAfter before cs = cs := by
  induction cs generalizing before with
  | nil => rfl
  | cons c cs ih =>
    obtain ⟨hc, hcs⟩ := List.forall_mem_cons.mp h
    rw [lowerAfter, if_neg hc.not_sigma, hc.lowerChar_eq, ih hcs, List.singleton_append]

/-- **Lower case.** A text in lower case is its own lower case. -/
theorem lower_lower (s : String) : lower (lower s) = lower s := by
  have hsettled : lowerAfter [] (lowerAfter [] s.toList) = lowerAfter [] s.toList :=
    lowerAfter_of_settled fun _ => settled_of_mem_lowerAfter
  rw [lower, lower, String.toList_ofList, hsettled]

end Formulary.Text
