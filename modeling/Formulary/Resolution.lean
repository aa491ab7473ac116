/-
  Formulary.Resolution

  Named formulas that refer to each other, put in an order in which they can be
  computed. Names are alike if they agree in lower case; of two formulas with the same
  name the later one counts.

  For every formula `resolve` finds

    * the formulas it needs, directly or through others;
    * its layer: 1 if it needs no formula, else one more than the highest layer it needs,
      and 0 if it lies on a circle of references or needs one that does;
    * its faults: those of its own tokens and its references back to itself; or, if there
      are none, its first reference to another formula that has faults; or, if there is
      none either, that it waits for a circle.
-/

import Formulary.Fault.Check
import Formulary.Expr
import Formulary.References

namespace Formulary

/-- A formula and its name, in lower case and as it was given. -/
structure Formula where
  name : String
  given : String
  text : String
  deriving DecidableEq, Repr

namespace Formula

/-- The formula that a pair of name and text defines. -/
def ofPair (p : String × String) : Formula := ⟨Text.lower p.1, p.1, p.2⟩

/-- The tokens of a formula. -/
def tokens (f : Formula) : List Token := tokenize f.text

/-- The expressions that a formula is read as. -/
def tree (f : Formula) : List Expr := Expr.ofFormula f.text

/-- The reference tokens of a token list whose first has the given index: the index of
each, the token, and the name it refers to in lower case. -/
def referencesFrom (index : Nat) : List Token → List (Nat × Token × String)
  | [] => []
  | t :: ts =>
    let rest := referencesFrom (index + 1) ts
    if t.kind = .reference then (index, t, Text.lower t.text) :: rest else rest

/-- The references of a formula in the order of its tokens. -/
def references (f : Formula) : List (Nat × Token × String) := referencesFrom 0 f.tokens

/-- The formulas that pairs of name and text define, one for every name, in the order of
the names. -/
def latest (pairs : List (String × String)) : List Formula :=
  let all := (pairs.map ofPair).reverse
  (Names.ofList (all.map name)).filterMap fun n => all.find? fun f => f.name = n

end Formula

/-- A formula, what it needs, when it can be computed and what is wrong with it. -/
structure Resolved where
  formula : Formula
  dependencies : List String
  layer : Nat
  faults : List Fault
  deriving DecidableEq, Repr

namespace Resolved

/-- The name of the formula in lower case. -/
def name (r : Resolved) : String := r.formula.name

/-- Whether the formula has no faults. -/
def isValid (r : Resolved) : Bool := r.faults.isEmpty

/-- Whether the formula can be computed at some time. -/
def isResolved (r : Resolved) : Bool := 0 < r.layer

end Resolved

namespace Resolution

/-! ## What a formula needs -/

/-- The references of all formulas. -/
def graph (fs : List Formula) : References :=
  ⟨fs.flatMap fun f => f.references.map fun (_, _, target) => (f.name, target)⟩

/-- The formulas that a formula needs, directly or through others. -/
def dependencies (g : References) (names : List String) (f : Formula) : List String :=
  (g.reachable f.name).filter fun n => n ∈ names

/-! ## Layers -/

/-- The formulas that need nothing but formulas in `done`. -/
def ready (done : List String) (pending : List (String × List String)) :
    List (String × List String) :=
  pending.filter fun p => p.2.all (· ∈ done)

/-- The formulas that need some formula outside `done`. -/
def waiting (done : List String) (pending : List (String × List String)) :
    List (String × List String) :=
  pending.filter fun p => !p.2.all (· ∈ done)

theorem length_waiting_lt {done : List String} {pending : List (String × List String)}
    (h : ready done pending ≠ []) : (waiting done pending).length < pending.length := by
  obtain ⟨p, hp⟩ := List.exists_mem_of_ne_nil _ h
  rw [ready, List.mem_filter] at hp
  exact List.length_filter_lt_length_iff_exists.2 ⟨p, hp.1, by simpa using hp.2⟩

/-- The layers, from `layer` on, of formulas and what they need, where `done` are the
formulas of lower layers. A formula that never gets a layer is left out. -/
def layersFrom (layer : Nat) (done : List String) (pending : List (String × List String)) :
    List (String × Nat) :=
  if ready done pending = [] then []
  else
    (ready done pending).map (fun p => (p.1, layer)) ++
      layersFrom (layer + 1) (done ++ (ready done pending).map Prod.fst) (waiting done pending)
termination_by pending.length
decreasing_by exact length_waiting_lt ‹_›

/-! ## Faults -/

/-- The faults of references that lead back to the formula itself. -/
def circleFaults (g : References) (f : Formula) : List Fault :=
  f.references.filterMap fun (index, t, target) =>
    if target = f.name then some (.atToken index t .circularReferenceToItself)
    else if f.name ∈ g.reachable target then some (.atToken index t .circularReference)
    else none

/-- The names of the formulas that have faults. -/
def broken (rs : List Resolved) : List String :=
  (rs.filter fun r => !r.isValid).map Resolved.name

/-- Whether a reference of a formula leads to another formula whose name is in a list. -/
def leadsInto (names : List String) (r : Resolved) : Nat × Token × String → Bool
  | (_, _, target) => target ≠ r.name && target ∈ names

/-- Marks a formula without faults at its first reference to another formula whose name is
in a list. -/
def mark (names : List String) (r : Resolved) : Resolved :=
  if !r.isValid then r
  else
    match r.formula.references.find? (leadsInto names r) with
    | some (index, t, _) => { r with faults := [.atToken index t .dependsOnInvalid] }
    | none => r

/-- Marks formulas one after the other. `names` holds the names of formulas that have
faults; those of formulas marked on the way join them. -/
def markFrom (names : List String) : List Resolved → List Resolved
  | [] => []
  | r :: rs => mark names r :: markFrom (names ++ broken [mark names r]) rs

/-- Marks a formula that has no layer and no faults. -/
def markUnresolved (r : Resolved) : Resolved :=
  if r.layer = 0 ∧ r.isValid then { r with faults := [.ofWhole .dependsOnCircular] } else r

/-- A formula with the faults of its own tokens and of circles. -/
def resolveOne (g : References) (allowed names : List String) (layers : List (String × Nat))
    (f : Formula) : Resolved where
  formula := f
  dependencies := dependencies g names f
  layer := (layers.lookup f.name).getD 0
  faults := Fault.check (some allowed) f.tokens ++ circleFaults g f

/-- Formulas in the order of their layers. -/
def byLayer (rs : List Resolved) : List Resolved := rs.mergeSort fun a b => a.layer ≤ b.layer

/-- Formulas in the order of their names. -/
def byName (rs : List Resolved) : List Resolved := rs.mergeSort fun a b => !decide (b.name < a.name)

end Resolution

open Resolution in
/-- The formulas that pairs of name and text define, in the order of their layers and, in
a layer, of their names. Besides each other they may refer to the names in `fields`. -/
def resolve (fields : List String) (pairs : List (String × String)) : List Resolved :=
  let fs := Formula.latest pairs
  let names := fs.map Formula.name
  let g := graph fs
  let layers := layersFrom 1 [] (fs.map fun f => (f.name, dependencies g names f))
  let rs := byLayer (fs.map (resolveOne g (fields ++ names) names layers))
  (markFrom (broken rs) rs).map markUnresolved

end Formulary
