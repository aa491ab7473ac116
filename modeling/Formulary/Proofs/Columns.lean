/-
  Formulary.Proofs.Columns

  The columns that computing a dictionary of formulas adds to a table.

  A dictionary has every key once, in the order of code points, but the formulas of a worksheet
  have names in lower case: of keys that agree in lower case only the last one is the key of a
  formula, and the others are `Superseded`. So the columns, which are those of the keys, and the
  results, which stand under the given names of the formulas, are two views of the same formulas.
  They agree on every key that is not superseded (`exists_entry_of_not_superseded`), and a
  superseded key has no result (`value?_of_superseded`).

  `outcome_run` says what is written and printed for a table whose records can be read. If the rows
  go to the path of the records, nothing of the records is left to be read (`Outcome.source`). Paths
  are compared as texts there, as in `Outcome.run`: two paths of one file, such as `r.csv` and
  `./r.csv`, count as two files.
-/

import Formulary.Command.Outcome
import Formulary.Proofs.SingleValue

namespace Formulary

/-! ## Dictionaries -/

/-- The keys of a dictionary stand in the order of code points. -/
theorem Json.pairwise_keys_dictionary? {text : String} {formulas : List (String × String)}
    (h : dictionary? text = some formulas) : (formulas.map Prod.fst).Pairwise (· < ·) := by
  obtain ⟨ms, -, rfl⟩ := Option.map_eq_some_iff.mp h
  have hkey {n : String} {p : String × String}
      (hp : (ms.reverse.find? fun m => m.1 = n) = some p) : p.1 = n :=
    of_decide_eq_true (List.find?_some hp :)
  -- The names are in order, and what is found for a name has it as its key.
  refine List.pairwise_map.mpr ((Names.pairwise_ofList _).filterMap _ ?_)
  intro n m hnm p hp q hq
  rw [hkey hp, hkey hq]
  exact hnm

namespace Table

variable {formulas : List (String × String)} {t : Table} {key : String}

/-- A later key agrees with the key in lower case. -/
def Superseded (formulas : List (String × String)) (key : String) : Prop :=
  ∃ q ∈ formulas, key < q.1 ∧ Text.lower q.1 = Text.lower key

instance (formulas : List (String × String)) (key : String) : Decidable (Superseded formulas key) :=
  inferInstanceAs (Decidable (∃ q ∈ formulas, key < q.1 ∧ Text.lower q.1 = Text.lower key))

/-- A formula with the key has faults, so there is a warning about it. -/
def Warned (t : Table) (formulas : List (String × String)) (key : String) : Prop :=
  ∃ r ∈ (t.worksheet formulas).invalid, r.formula.given = key

/-- The value that a record has in the column of a key, if it has any. -/
def value? (t : Table) (formulas : List (String × String)) (r : Csv.Record) (key : String) :
    Option String :=
  ((t.worksheet formulas).compute (t.header.zip r)).values.lookup key

/-- What a name stands for in a record: the value of the last formula whose key agrees with it in
    lower case, else the last field whose name does, else the empty text. -/
def standsFor (t : Table) (formulas : List (String × String)) (r : Csv.Record) (name : String) :
    String :=
  match formulas.reverse.find? fun p => Text.lower p.1 = Text.lower name with
  | some p => (t.value? formulas r p.1).getD ""
  | none => (lastField? (t.header.zip r) (Text.lower name)).getD ""

/-! ## Keys and formulas -/

open Resolution

/-- The last key of a name is the key of its formula. -/
theorem defines_of_not_superseded (hkeys : (formulas.map Prod.fst).Pairwise (· < ·))
    {p : String × String} (hp : p ∈ formulas) (h : ¬Superseded formulas p.1) :
    Defines formulas (.ofPair p) := by
  obtain ⟨before, after, rfl⟩ := List.append_of_mem hp
  -- A pair behind it has a later key, so it does not agree with it in lower case.
  refine ⟨before, p, after, rfl, rfl, fun q hq heq => h ⟨q, ?_, ?_, heq⟩⟩
  · exact List.mem_append_right _ (List.mem_cons_of_mem p hq)
  · rw [List.map_append, List.map_cons, List.pairwise_append, List.pairwise_cons] at hkeys
    exact hkeys.2.1.1 _ (List.mem_map_of_mem hq)

/-- The key of a formula is not superseded. -/
theorem not_superseded_of_defines (hkeys : (formulas.map Prod.fst).Pairwise (· < ·))
    {f : Formula} (hf : Defines formulas f) : ¬Superseded formulas f.given := by
  obtain ⟨before, p, after, rfl, rfl, hafter⟩ := hf
  rintro ⟨q, hq, hlt, heq⟩
  rw [List.map_append, List.map_cons, List.pairwise_append] at hkeys
  rcases List.mem_append.mp hq with hq | hq
  · have hle := hkeys.2.2 q.1 (List.mem_map_of_mem hq) p.1 List.mem_cons_self
    exact String.lt_irrefl _ (String.lt_trans hlt hle)
  · rcases List.mem_cons.mp hq with rfl | hq
    · exact String.lt_irrefl _ hlt
    · exact hafter q hq heq

/-- No warning is about a superseded key. -/
theorem not_warned_of_superseded (hkeys : (formulas.map Prod.fst).Pairwise (· < ·))
    (h : Superseded formulas key) : ¬t.Warned formulas key := by
  rintro ⟨r, hr, rfl⟩
  exact not_superseded_of_defines hkeys (entry_of_mem (List.mem_filter.mp hr).1).defines h

/-- A key that is not superseded is the given name of exactly one entry, with its own text. -/
theorem exists_entry_of_not_superseded (t : Table)
    (hkeys : (formulas.map Prod.fst).Pairwise (· < ·)) {p : String × String} (hp : p ∈ formulas)
    (h : ¬Superseded formulas p.1) :
    ∃ r ∈ (t.worksheet formulas).entries, r.formula = .ofPair p ∧
      ∀ s ∈ (t.worksheet formulas).entries, s.formula.given = p.1 → s = r := by
  have hdefines := defines_of_not_superseded hkeys hp h
  obtain ⟨r, hr, hformula⟩ : ∃ r ∈ resolve t.header formulas, r.formula = .ofPair p :=
    exists_mem_resolve_iff.mpr hdefines
  refine ⟨r, hr, hformula, fun s hs hgiven => eq_of_name_eq hs hr ?_⟩
  have hrname : r.name = Text.lower p.1 := congrArg Formula.name hformula
  rw [hrname, ← hgiven]
  exact (entry_of_mem hs).defines.name_eq

/-- A warning is about the formula of the key. -/
theorem warned_iff {r : Resolved} (hr : r ∈ (t.worksheet formulas).entries)
    (hone : ∀ s ∈ (t.worksheet formulas).entries, s.formula.given = r.formula.given → s = r) :
    t.Warned formulas r.formula.given ↔ r.isValid = false := by
  constructor
  · rintro ⟨s, hs, hgiven⟩
    obtain ⟨hmem, hv⟩ := List.mem_filter.mp hs
    rw [hone s hmem hgiven] at hv
    exact Bool.not_eq_true' _ ▸ hv
  · intro hv
    exact ⟨r, List.mem_filter.mpr ⟨hr, by rw [hv]; rfl⟩, rfl⟩

/-! ## Values under keys -/

variable {r : Csv.Record}

theorem value?_eq_none_iff :
    t.value? formulas r key = none ↔
      ∀ s ∈ (t.worksheet formulas).entries, s.isComputable = true → s.formula.given ≠ key := by
  have hnames : key ∈ ((t.worksheet formulas).compute (t.header.zip r)).values.map Prod.fst ↔
      key ∈ ((t.worksheet formulas).entries.filter Resolved.isComputable).map
        fun r => r.formula.given := Worksheet.mem_names_compute
  have hnone : t.value? formulas r key = none ↔
      key ∉ ((t.worksheet formulas).compute (t.header.zip r)).values.map Prod.fst := by
    simp only [value?, List.lookup_eq_none_iff, bne_iff_ne, List.mem_map, not_exists, not_and]
    exact forall₂_congr fun p _ => ne_comm
  rw [hnone, hnames]
  simp only [List.mem_map, List.mem_filter, not_exists, not_and, and_imp, ne_eq]

/-- A superseded key has no value. -/
theorem value?_of_superseded (hkeys : (formulas.map Prod.fst).Pairwise (· < ·))
    (h : Superseded formulas key) : t.value? formulas r key = none := by
  rw [value?_eq_none_iff]
  rintro s hs - rfl
  exact not_superseded_of_defines hkeys (entry_of_mem hs).defines h

/-- Names stand for what they mean in the worksheet. -/
theorem meaning_eq_standsFor (t : Table) (formulas : List (String × String)) (r : Csv.Record)
    (name : String) :
    (t.worksheet formulas).meaning (t.header.zip r) name = t.standsFor formulas r name := by
  -- The last pair with the name is found among the pairs where its formula is among the formulas.
  have hfind : (formulas.reverse.find? fun p => Text.lower p.1 = Text.lower name).map .ofPair =
      (allFormulas formulas).find? fun f => f.name = Text.lower name := by
    rw [allFormulas, ← List.map_reverse, List.find?_map]
    rfl
  rw [Worksheet.meaning, standsFor]
  cases hlast : formulas.reverse.find? fun p => Text.lower p.1 = Text.lower name with
  | none =>
    rw [hlast] at hfind
    have hnone : (t.worksheet formulas).find? name = none := by
      rw [Worksheet.find?_eq_none_iff]
      intro d hd hname
      have hsome := find?_allFormulas_eq_some_iff.mpr ⟨(entry_of_mem hd).defines, hname⟩
      rw [← hfind] at hsome
      exact absurd hsome.symm (Option.some_ne_none d.formula)
    rw [hnone]
  | some p =>
    rw [hlast] at hfind
    obtain ⟨hdefines, hname⟩ := find?_allFormulas_eq_some_iff.mp hfind.symm
    obtain ⟨d, hd, hformula⟩ : ∃ d ∈ resolve t.header formulas, d.formula = .ofPair p :=
      exists_mem_resolve_iff.mpr hdefines
    have hsome : (t.worksheet formulas).find? name = some d :=
      (Worksheet.find?_eq_some_iff rfl).mpr ⟨hd, (congrArg Formula.name hformula).trans hname⟩
    have hgiven : d.formula.given = p.1 := congrArg Formula.given hformula
    rw [hsome]
    simp only [hgiven, value?]

/-- A key that is not superseded has no value if there is a warning about it, and otherwise the
    value of its own text. -/
theorem value?_of_not_superseded (hkeys : (formulas.map Prod.fst).Pairwise (· < ·))
    {p : String × String} (hp : p ∈ formulas) (h : ¬Superseded formulas p.1) (r : Csv.Record) :
    (t.value? formulas r p.1 = none ↔ t.Warned formulas p.1) ∧
      (¬t.Warned formulas p.1 → t.value? formulas r p.1 =
        some (Expr.value (t.standsFor formulas r) (Expr.ofFormula p.2))) := by
  -- Both the value and the warning are those of the one entry that has the key as its given name.
  obtain ⟨d, hd, hformula, hone⟩ := exists_entry_of_not_superseded t hkeys hp h
  have hgiven : d.formula.given = p.1 := congrArg Formula.given hformula
  have htree : d.formula.tree = Expr.ofFormula p.2 := by rw [hformula, Formula.tree, Formula.ofPair]
  have hwarned : t.Warned formulas p.1 ↔ d.isValid = false := by
    rw [← hgiven] at hone ⊢
    exact warned_iff hd hone
  have hw : (t.worksheet formulas).entries = resolve t.header formulas := rfl
  have hvalue (hv : d.isValid = true) : t.value? formulas r p.1 =
      some (Expr.value (t.standsFor formulas r) (Expr.ofFormula p.2)) := by
    have hc : d.isComputable = true := Worksheet.isComputable_of_isValid hw hd hv
    have hmeaning : (t.worksheet formulas).meaning (t.header.zip r) = t.standsFor formulas r :=
      funext (meaning_eq_standsFor t formulas r)
    rw [value?, ← hgiven, Worksheet.lookup_compute hw hd hc, Worksheet.lookup_finalScope hw hd hc,
      Worksheet.valueIn_finalScope hw hd hc, htree, hmeaning]
  refine ⟨?_, fun hno => hvalue (by simpa [hwarned] using hno)⟩
  rw [hwarned, value?_eq_none_iff]
  constructor
  · intro hnone
    by_contra hv
    have hc : d.isComputable = true :=
      Worksheet.isComputable_of_isValid hw hd (by simpa using hv)
    exact hnone d hd hc hgiven
  · intro hv s hs hc hs'
    rw [hone s hs hs', Resolved.isComputable, hv] at hc
    exact absurd hc Bool.false_ne_true

/-! ## Rows -/

/-- All records fit the header if none is reported. -/
theorem fitting_eq (h : t.misfit? = none) : t.fitting = t.records := by
  rw [misfit?] at h
  split at h
  · next hall => exact List.takeWhile_eq_self_iff.mpr (List.all_eq_true.mp hall)
  · exact nomatch h

/-- Below the header and the keys stand the records, each with one cell for every key. -/
theorem withColumns_eq (formulas : List (String × String)) (h : t.misfit? = none) :
    t.withColumns formulas = (t.header ++ formulas.map Prod.fst) :: t.records.map fun r =>
      r ++ (formulas.map Prod.fst).map fun key => (t.value? formulas r key).getD errorCell := by
  rw [withColumns, fitting_eq h]
  rfl

end Table

/-! ## What is written and printed -/

namespace Outcome

/-- The outcome of a command that has written rows, to the given file or else as its output. -/
def ofRows (file : Option String) (rows : List Csv.Record) (messages : List String) : Outcome :=
  match file with
  | none => ⟨0, String.join (rows.map Csv.writeRecord), messages, []⟩
  | some path => ⟨0, "", messages, [(path, String.join (rows.map Csv.writeRecord))]⟩

/-- What there is to be read of the records: nothing if they are in the file that the rows are
    written to, since that is emptied first. -/
def source (records : String) (output : Option String) (csv : String) : String :=
  if output = some records then "" else csv

/-- A table whose records all fit is written as a whole. -/
theorem exists_run_eq {dir : Directory} {records csv : String} {output : Option String}
    (formulas : List (String × String)) (hcsv : dir.read? records = some csv)
    (houtput : ∀ file ∈ output, dir.canCreate file = true)
    (hfits : (Table.ofRows (Csv.records (source records output csv))).misfit? = none) :
    let t := Table.ofRows (Csv.records (source records output csv))
    ∃ line, run dir records output formulas =
      ofRows output (t.withColumns formulas)
        ((t.worksheet formulas).invalid.map warning ++ [line]) := by
  cases output with
  | none =>
    rw [source, if_neg nofun] at hfits ⊢
    simp only [run, hcsv, printTable, tableCode, report, hfits]
    exact ⟨_, rfl⟩
  | some file =>
    simp only [source, Option.some.injEq] at hfits ⊢
    simp only [run, hcsv, houtput file rfl, if_true, writeTable, tableCode, report, hfits]
    exact ⟨_, rfl⟩

open Table in
/-- **Columns.** If the dictionary and all records can be read, the rows are written in their
    order: the header with the keys of the dictionary, in the order of code points, behind it, and
    every record with a cell for each key behind its own. Warnings are printed about the formulas
    that have faults. A key that no later key agrees with in lower case has no value, and its cell
    tells of an error, exactly if there is a warning about it; otherwise the cell has the value of
    the key's own text. Of keys that agree in lower case the last one counts, so the others have no
    value. -/
theorem outcome_run {dir : Directory} {path records json csv : String} {output : Option String}
    {formulas : List (String × String)} (hjson : dir.read? path = some json)
    (hformulas : Json.dictionary? json = some formulas) (hcsv : dir.read? records = some csv)
    (houtput : ∀ file ∈ output, dir.canCreate file = true)
    (hfits : (Table.ofRows (Csv.records (source records output csv))).misfit? = none) :
    let t := Table.ofRows (Csv.records (source records output csv))
    let keys := formulas.map Prod.fst
    (∃ line, (Command.run path records output).outcome dir =
      ofRows output
        ((t.header ++ keys) :: t.records.map fun r =>
          r ++ keys.map fun key => (t.value? formulas r key).getD "#ERROR")
        ((t.worksheet formulas).invalid.map warning ++ [line])) ∧
    keys.Pairwise (· < ·) ∧
    ∀ r ∈ t.records, ∀ p ∈ formulas,
      (¬Superseded formulas p.1 →
        (t.value? formulas r p.1 = none ↔ t.Warned formulas p.1) ∧
        (¬t.Warned formulas p.1 → t.value? formulas r p.1 =
          some (Expr.value (t.standsFor formulas r) (Expr.ofFormula p.2)))) ∧
      (Superseded formulas p.1 → t.value? formulas r p.1 = none) := by
  intro t keys
  have hkeys : keys.Pairwise (· < ·) := Json.pairwise_keys_dictionary? hformulas
  refine ⟨?_, hkeys, fun r _ p hp => ⟨fun h => value?_of_not_superseded hkeys hp h r,
    value?_of_superseded hkeys⟩⟩
  obtain ⟨line, hrun⟩ := exists_run_eq formulas hcsv houtput hfits
  rw [withColumns_eq formulas hfits] at hrun
  refine ⟨line, ?_⟩
  rw [Command.outcome, withFormulas, hjson]
  simp only [hformulas]
  exact hrun

/-- A directory with a dictionary and a table of one record. -/
def sample (json : String) : Directory where
  read? name := [("f.json", json), ("r.csv", "x\n5\n")].lookup name
  canCreate _ := true

/-- A formula with a fault, and one over another that is over a field. -/
theorem outcome_run_total :
    let json := "\x7b\"Total\":\"\x7bNET\x7d\",\"net\":\"\x7bx\x7d\",\"Bad\":\"1 1\"\x7d"
    let formulas := [("Bad", "1 1"), ("Total", "\x7bNET\x7d"), ("net", "\x7bx\x7d")]
    let t : Table := ⟨["x"], [["5"]]⟩
    Json.dictionary? json = some formulas ∧ Table.ofRows (Csv.records "x\n5\n") = t ∧
      (∃ line, (Command.run "f.json" "r.csv" none).outcome (sample json) =
        ofRows none (t.withColumns formulas)
          ((t.worksheet formulas).invalid.map warning ++ [line])) ∧
      (t.Warned formulas "Bad" ∧ t.value? formulas ["5"] "Bad" = none) ∧
      ¬t.Warned formulas "Total" ∧ t.value? formulas ["5"] "Total" =
        some (Expr.value (t.standsFor formulas ["5"]) (Expr.ofFormula "\x7bNET\x7d")) := by
  intro json formulas t
  have hformulas : Json.dictionary? json = some formulas := by decide +kernel
  have htable : Table.ofRows (Csv.records "x\n5\n") = t := by decide +kernel
  have hfits : (Table.ofRows (Csv.records "x\n5\n")).misfit? = none := by decide +kernel
  have hgiven : ((t.worksheet formulas).invalid.map fun r => r.formula.given) = ["Bad"] := by cbv
  have hwarned (key : String) : t.Warned formulas key ↔ key ∈ ["Bad"] := by
    rw [← hgiven, List.mem_map, Table.Warned]
  have hbad : t.Warned formulas "Bad" := (hwarned "Bad").mpr (by decide)
  have htotal : ¬t.Warned formulas "Total" := mt (hwarned "Total").mp (by decide)
  obtain ⟨⟨line, hrun⟩, -, hvalues⟩ :=
    @outcome_run (sample json) "f.json" "r.csv" json "x\n5\n" none formulas rfl hformulas rfl
      (fun _ h => absurd h (Option.not_mem_none _)) hfits
  have hsource : source "r.csv" none "x\n5\n" = "x\n5\n" := rfl
  rw [hsource, htable] at hrun hvalues
  have hcells := hvalues ["5"] List.mem_cons_self
  have hbadcell := (hcells ("Bad", "1 1") (by decide)).1 (by decide +kernel)
  have htotalcell := (hcells ("Total", "\x7bNET\x7d") (by decide)).1 (by decide +kernel)
  exact ⟨hformulas, htable, ⟨line, hrun⟩, ⟨hbad, hbadcell.1.mpr hbad⟩, htotal,
    htotalcell.2 htotal⟩

/-- Of two keys that agree in lower case only the last one has a value. The cell of the other
    tells of an error, but no warning does, and its own text has the value 1. -/
theorem outcome_run_superseded :
    (Command.run "f.json" "r.csv" none).outcome
        (sample "\x7b\"A\":\"1\",\"a\":\"2\"\x7d") =
      ⟨0, "x,A,a\n5,#ERROR,2\n", ["Calculated 1 rows"], []⟩ ∧
    ¬Table.Warned ⟨["x"], [["5"]]⟩ [("A", "1"), ("a", "2")] "A" ∧
    Expr.value (Table.standsFor ⟨["x"], [["5"]]⟩ [("A", "1"), ("a", "2")] ["5"])
      (Expr.ofFormula "1") = "1" := by
  refine ⟨by cbv, ?_, by cbv⟩
  exact Table.not_warned_of_superseded (by decide) (by decide +kernel)

end Outcome

end Formulary
