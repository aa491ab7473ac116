/-
  Formulary.Listing

  Tokens, expressions, faults and resolved formulas as they are listed for a reader and
  for other programs.
-/

import Formulary.Json
import Formulary.Resolution
import Formulary.Text.Quoted

namespace Formulary

/-! ## For a reader -/

/-- The line of a token: its kind and its text in quotes. -/
def Token.line (t : Token) : String := t.kind.name ++ "\t" ++ Text.quoted t.text

/-- The lines of a resolved formula: its name, layer and dependencies, and below them its
faults. -/
def Resolved.lines (r : Resolved) : List String :=
  String.join [r.formula.given, "\torder ", toString r.layer, "\tdepends on [",
    ", ".intercalate r.dependencies, "]"] ::
    r.faults.map fun f => "    " ++ f.message

/-! ## For programs -/

/-- A token with its kind. -/
def Token.json (t : Token) : Json := .object [("kind", .text t.kind.name), ("value", .text t.text)]

/-- An expression with its kind, its own text and its parts. -/
def Expr.node (k : Kind) (text : String) (parts : List Json) : Json :=
  .object [("kind", .text k.name), ("value", .text text), ("inner_nodes", .list parts)]

mutual

/-- An expression as a tree of nodes. -/
def Expr.json : Expr → Json
  | .number s => Expr.node .number s []
  | .quoted s => Expr.node .quoted s []
  | .reference s => Expr.node .reference s []
  | .operation s es => Expr.node .operator s (Expr.jsons es)
  | .call s es => Expr.node .function s (Expr.jsons es)
  | .group es => Expr.node .group "" (Expr.jsons es)

/-- Expressions as trees of nodes. -/
def Expr.jsons : List Expr → List Json
  | [] => []
  | e :: es => Expr.json e :: Expr.jsons es

end

/-- A fault with its token. -/
def Fault.json (f : Fault) : Json :=
  let (token, index) : Json × Json :=
    match f.place with
    | some (index, t) => (t.json, .number index)
    | none => (.null, .null)
  .object [("token", token), ("token_index", index), ("error_type", .text f.problem.name)]

/-- A resolved formula with all that was found out about it. -/
def Resolved.json (r : Resolved) : Json :=
  .object [
    ("reference_name", .text r.name),
    ("reference_name_orig", .text r.formula.given),
    ("formula", .text r.formula.text),
    ("tokens", .list (r.formula.tokens.map Token.json)),
    ("token_nodes", .list (Expr.jsons r.formula.tree)),
    ("validation_errors", .list (r.faults.map Fault.json)),
    ("order", .number r.layer),
    ("dependencies", .list (r.dependencies.map .text))]

/-- Resolved formulas under their names, in the order of the names. -/
def Resolution.json (rs : List Resolved) : Json :=
  .object ((Resolution.byName rs).map fun r => (r.name, r.json))

end Formulary
