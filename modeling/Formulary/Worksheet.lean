/-
  Formulary.Worksheet

  A worksheet holds named formulas in the order in which they are computed, and computes
  them for any number of records. A formula sees the fields of the record and, in the
  place of a field of the same name, the results of formulas before it; names are alike
  if they agree in lower case, and an unknown name has the empty text as its value.
-/

import Formulary.Resolution
import Formulary.Expr.Value

namespace Formulary

/-- The values that names in lower case have, the first one counting. -/
abbrev Scope := List (String × String)

namespace Scope

/-- The fields of a record; of two fields with the same name the later one counts. -/
def ofRecord (record : List (String × String)) : Scope :=
  (record.map fun p => (Text.lower p.1, p.2)).reverse

/-- The value of a name, the empty text if it is unknown. -/
def get (s : Scope) (name : String) : String := (s.lookup (Text.lower name)).getD ""

end Scope

/-- Why a single formula has no value. -/
inductive Unavailable where
  /-- No formula has the name. -/
  | unknown (name : String)
  /-- The formula has faults. -/
  | invalid (name : String) (problems : List Problem)
  /-- The formula has no layer. -/
  | unresolved (name : String)
  deriving DecidableEq, Repr

namespace Unavailable

/-- The sentence that tells a reader why there is no value. -/
def message : Unavailable → String
  | unknown name => "Unknown formula: " ++ name
  | invalid name problems =>
    "Invalid formula " ++ name ++ ": " ++ ", ".intercalate (problems.map Problem.message)
  | unresolved name => "Unresolved formula: " ++ name

end Unavailable

/-- Texts under names, in the order of the names. -/
abbrev Values := List (String × String)

namespace Values

/-- The values with one more, in the place of any under the same name. -/
def insert (name value : String) : Values → Values
  | [] => [(name, value)]
  | p :: ps =>
    if name < p.1 then (name, value) :: p :: ps
    else if p.1 < name then p :: insert name value ps
    else (name, value) :: ps

/-- A value is found under its own name, and the others as before. -/
theorem lookup_insert (name value n : String) (vs : Values) :
    (insert name value vs).lookup n = if n = name then some value else vs.lookup n := by
  induction vs with
  | nil => exact Names.lookup_cons name value [] n
  | cons p ps ih =>
    rw [insert]
    split
    · exact Names.lookup_cons name value (p :: ps) n
    · next hle =>
      split
      · next hlt =>
        rw [Names.lookup_cons, ih, Names.lookup_cons]
        by_cases hp : n = p.1
        · have hne : n ≠ name := hp ▸ fun h => String.lt_irrefl name (h ▸ hlt)
          rw [if_pos hp, if_pos hp, if_neg hne]
        · rw [if_neg hp, if_neg hp]
      · next hge =>
        have hp : p.1 = name := String.le_antisymm (String.not_lt.1 hle) (String.not_lt.1 hge)
        rw [Names.lookup_cons, Names.lookup_cons, hp]
        by_cases hn : n = name
        · rw [if_pos hn, if_pos hn]
        · rw [if_neg hn, if_neg hn, if_neg hn]

/-- Inserting a value inserts its name among the names. -/
theorem names_insert (name value : String) (vs : Values) :
    (insert name value vs).map Prod.fst = Names.insert name (vs.map Prod.fst) := by
  induction vs with
  | nil => rfl
  | cons p ps ih =>
    rw [insert, List.map_cons, Names.insert]
    split
    · rfl
    · next hle =>
      split
      · rw [List.map_cons, ih]
      · next hge =>
        have hp : p.1 = name := String.le_antisymm (String.not_lt.1 hle) (String.not_lt.1 hge)
        rw [List.map_cons, hp]

end Values

/-- The results of formulas for one record: their values under the names as given, how
many formulas there are, how many of them were computed and how many were passed over. -/
structure Results where
  values : Values
  formulas : Nat
  computed : Nat
  skipped : Nat
  deriving DecidableEq, Repr

namespace Results

/-- No results yet, of a number of formulas. -/
def empty (formulas : Nat) : Results := ⟨[], formulas, 0, 0⟩

/-- The results with the value of one more formula. -/
def add (r : Results) (name value : String) : Results :=
  { r with values := Values.insert name value r.values, computed := r.computed + 1 }

/-- The results with one more formula passed over. -/
def skip (r : Results) : Results := { r with skipped := r.skipped + 1 }

/-- The value of the formula with a name, upper and lower case being alike. -/
def get? (r : Results) (name : String) : Option String :=
  (r.values.find? fun p => Text.lower p.1 = Text.lower name).map Prod.snd

end Results

namespace Resolved

/-- Whether the formula is computed: it has no faults and a layer. -/
def isComputable (r : Resolved) : Bool := r.isValid && r.isResolved

/-- The value of the formula where names have the values of a scope. -/
def valueIn (r : Resolved) (s : Scope) : String := Expr.value s.get r.formula.tree

end Resolved

/-- Formulas in the order in which they are computed; those without a layer come first. -/
structure Worksheet where
  entries : List Resolved

namespace Worksheet

/-- The names that formulas refer to, as written. -/
def referredNames (pairs : List (String × String)) : List String :=
  pairs.flatMap fun p => ((tokenize p.2).filter fun t => t.kind = .reference).map Token.text

/-- The worksheet of the formulas that pairs of name and text define. They may refer to
each other and to the names in `fields`; without such a list, to any name. -/
def ofPairs (fields : Option (List String)) (pairs : List (String × String)) : Worksheet :=
  ⟨resolve (fields.getD (referredNames pairs)) pairs⟩

/-- The formula with a name, upper and lower case being alike. -/
def find? (w : Worksheet) (name : String) : Option Resolved :=
  w.entries.find? fun r => r.name = Text.lower name

/-- Whether no formula has faults. -/
def isValid (w : Worksheet) : Bool := w.entries.all Resolved.isValid

/-- The formulas that have faults. -/
def invalid (w : Worksheet) : List Resolved := w.entries.filter fun r => !r.isValid

/-- The scope and the results behind some formulas, given those before them. -/
def computeFrom (s : Scope) (results : Results) : List Resolved → Scope × Results
  | [] => (s, results)
  | r :: rs =>
    if r.isComputable then
      let v := r.valueIn s
      computeFrom ((r.name, v) :: s) (results.add r.formula.given v) rs
    else computeFrom s results.skip rs

/-- The results of all formulas for a record. -/
def compute (w : Worksheet) (record : List (String × String)) : Results :=
  (computeFrom (Scope.ofRecord record) (.empty w.entries.length) w.entries).2

/-- The formulas that are computed before a formula: those of lower layers that it needs. -/
def needed (w : Worksheet) (target : Resolved) : List Resolved :=
  (w.entries.takeWhile fun r => r.layer < target.layer).filter fun r =>
    target.dependencies.contains r.name

/-- The value of one formula for a record. Only the formulas that it needs are computed
before it. -/
def value (w : Worksheet) (name : String) (record : List (String × String)) :
    Except Unavailable String :=
  match w.find? name with
  | none => .error (.unknown name)
  | some target =>
    if !target.isValid then .error (.invalid target.formula.given (target.faults.map Fault.problem))
    else if !target.isResolved then .error (.unresolved target.formula.given)
    else
      let before := w.needed target
      .ok (target.valueIn (computeFrom (Scope.ofRecord record) (.empty before.length) before).1)

end Worksheet

end Formulary
