/-
  Formulary.Proofs.TreeTokens

  The nodes of the tree that tokens are read as, whatever the tokens are.

  Every node that is no bracketed part has the token that it was made of (`Expr.head`). The
  builder makes one node of every value, operator and function name that it reads, moves nodes
  below others but drops and copies none, and gives an operation no third operand. Both are
  invariants of its state: `Builder.written_read_perm` counts the tokens of the nodes that are in
  its open parts, and `Builder.narrow_read` bounds the operands. A bracket that is never closed, or
  one that closes nothing, changes neither.

  `nodes_ofTokens` puts them together for the finished tree.
-/

import Formulary.Proofs.Leaves
import Formulary.Proofs.TreeNodes

namespace Formulary

/-- A token that becomes a node of its own. -/
def Token.isHead (t : Token) : Bool :=
  t.kind ∈ [.number, .quoted, .reference, .operator, .function]

namespace Expr

/-- The token of an expression that is no bracketed part. -/
def head : Expr → List Token
  | group _ => []
  | e => [⟨e.kind, e.text⟩]

/-- Whether the expression is a numeral, a literal or a reference. -/
def isLeaf (e : Expr) : Bool := e.kind ∈ [.number, .quoted, .reference]

/-- The tokens of all nodes of expressions, each before those of its parts. -/
def written (es : List Expr) : List Token := (nodesOf es).flatMap head

theorem nodesOf_append (es fs : List Expr) : nodesOf (es ++ fs) = nodesOf es ++ nodesOf fs := by
  induction es with
  | nil => rfl
  | cons e es ih => rw [List.cons_append, nodesOf, ih, nodesOf, List.append_assoc]

theorem mem_nodesOf {n : Expr} {es : List Expr} : n ∈ nodesOf es ↔ ∃ e ∈ es, n ∈ e.nodes := by
  induction es with
  | nil => simp [nodesOf]
  | cons e es ih => simp [nodesOf, ih]

theorem written_nil : written [] = [] := rfl

theorem written_append (es fs : List Expr) : written (es ++ fs) = written es ++ written fs := by
  rw [written, nodesOf_append, List.flatMap_append, written, written]

theorem written_cons (e : Expr) (es : List Expr) : written (e :: es) = written [e] ++ written es :=
  written_append [e] es

/-- The tokens of an expression are its own and those of its parts. -/
theorem written_singleton (e : Expr) : written [e] = e.head ++ written e.parts := by
  rw [written, nodesOf_singleton]
  cases e <;> rw [nodes] <;> rfl

theorem written_reverse_perm (es : List Expr) : (written es.reverse).Perm (written es) := by
  induction es with
  | nil => exact .refl _
  | cons e es ih =>
    rw [List.reverse_cons, written_append, written_cons e es]
    exact (ih.append_right _).trans List.perm_append_comm

/-! ## Tokens of one kind -/

/-- The nodes of a kind have the tokens of the kind. -/
theorem map_text_filter_kind {k : Kind} (hk : k ≠ .group) (ns : List Expr) :
    (ns.filter fun n => n.kind = k).map text =
      ((ns.flatMap head).filter fun t => t.kind = k).map Token.text := by
  induction ns with
  | nil => rfl
  | cons n ns ih =>
    have hn : ([n].filter fun n => n.kind = k).map text =
        (n.head.filter fun t => t.kind = k).map Token.text := by
      cases n with
      | group es => simp [head, kind, hk.symm]
      | _ => simp only [head, List.filter_cons, List.filter_nil]; split <;> rfl
    rw [← List.singleton_append, List.filter_append, List.map_append, hn, ih, List.flatMap_append,
      List.filter_append, List.map_append, List.flatMap_singleton]

theorem map_token_filter_isLeaf (ns : List Expr) :
    (ns.filter isLeaf).map (fun n => (⟨n.kind, n.text⟩ : Token)) =
      (ns.flatMap head).filter Token.isLeaf := by
  induction ns with
  | nil => rfl
  | cons n ns ih =>
    rw [List.filter_cons, List.flatMap_cons, List.filter_append, ← ih]
    cases n <;> rfl

mutual

theorem leaves_eq : ∀ e : Expr, e.leaves = (e.nodes.flatMap head).filter Token.isLeaf
  | number s => rfl
  | quoted s => rfl
  | reference n => rfl
  | operation s es => by rw [leaves, nodes, leavesOf_eq es]; rfl
  | call f es => by rw [leaves, nodes, leavesOf_eq es]; rfl
  | group es => by rw [leaves, nodes, leavesOf_eq es]; rfl

/-- The leaves of expressions are their nodes that are leaves. -/
theorem leavesOf_eq : ∀ es : List Expr, leavesOf es = (written es).filter Token.isLeaf
  | [] => rfl
  | e :: es => by
    rw [leavesOf, leaves_eq e, leavesOf_eq es, ← List.filter_append, written_cons, written,
      written, nodesOf_singleton]

end

/-! ## Operands -/

/-- An operation has at most two operands. -/
def Narrow (n : Expr) : Prop := n.kind = .operator → n.parts.length ≤ 2

/-- All nodes of the expressions are narrow. -/
def AllNarrow (es : List Expr) : Prop := ∀ n ∈ nodesOf es, n.Narrow

theorem allNarrow_nil : AllNarrow [] := fun _ hn => nomatch hn

theorem allNarrow_append {es fs : List Expr} :
    AllNarrow (es ++ fs) ↔ AllNarrow es ∧ AllNarrow fs := by
  simp only [AllNarrow, nodesOf_append, List.mem_append, or_imp, forall_and]

theorem allNarrow_cons {e : Expr} {es : List Expr} :
    AllNarrow (e :: es) ↔ AllNarrow [e] ∧ AllNarrow es := @allNarrow_append [e] es

theorem allNarrow_singleton {e : Expr} : AllNarrow [e] ↔ e.Narrow ∧ AllNarrow e.parts := by
  have hnodes : e.nodes = e :: nodesOf e.parts := by cases e <;> rw [nodes] <;> rfl
  rw [AllNarrow, nodesOf_singleton, hnodes, List.forall_mem_cons, AllNarrow]

theorem allNarrow_reverse {es : List Expr} : AllNarrow es.reverse ↔ AllNarrow es := by
  simp only [AllNarrow, mem_nodesOf, List.mem_reverse]

end Expr

open Formulary.Expr (written AllNarrow written_cons written_singleton written_append allNarrow_cons
  allNarrow_singleton allNarrow_append)

/-! ## The items of a part -/

namespace Items

theorem written_attach_perm (e : Expr) (items : Items) :
    (written (items.attach e)).Perm (written items ++ written [e]) := by
  have hfront : (written (e :: items)).Perm (written items ++ written [e]) := by
    rw [written_cons]
    exact List.perm_append_comm
  cases items with
  | nil => exact hfront
  | cons last done =>
    cases last with
    | operation s es =>
      rw [attach]
      split
      · -- The new operand stands behind the others, in front of the other items.
        rw [written_cons, written_singleton, written_cons (Expr.operation s es),
          written_singleton (Expr.operation s es)]
        simp only [Expr.parts, written_append, List.append_assoc]
        exact (List.perm_append_comm.append_left _).append_left _
      · exact hfront
    | _ => exact hfront

theorem written_operator (s : String) (items : Items) :
    written (items.operator s) = ⟨.operator, s⟩ :: written items := by
  cases items with
  | nil => rfl
  | cons left done =>
    rw [operator, written_cons, written_singleton, written_cons left]
    rfl

theorem allNarrow_attach {e : Expr} {items : Items} (he : AllNarrow [e]) (h : AllNarrow items) :
    AllNarrow (items.attach e) := by
  have hfront : AllNarrow (e :: items) := allNarrow_cons.mpr ⟨he, h⟩
  cases items with
  | nil => exact hfront
  | cons last done =>
    cases last with
    | operation s es =>
      rw [attach]
      split
      · next hlt =>
        obtain ⟨hlast, hdone⟩ := allNarrow_cons.mp h
        have hparts : AllNarrow es := (allNarrow_singleton.mp hlast).2
        -- An operation takes one more operand only while it has fewer than two.
        have hnarrow : (Expr.operation s (es ++ [e])).Narrow := by
          intro _
          rw [Expr.parts, List.length_append, List.length_singleton]
          omega
        have hnew : AllNarrow [.operation s (es ++ [e])] :=
          allNarrow_singleton.mpr ⟨hnarrow, allNarrow_append.mpr ⟨hparts, he⟩⟩
        exact allNarrow_cons.mpr ⟨hnew, hdone⟩
      · exact hfront
    | _ => exact hfront

theorem allNarrow_operator (s : String) {items : Items} (h : AllNarrow items) :
    AllNarrow (items.operator s) := by
  cases items with
  | nil => exact allNarrow_singleton.mpr ⟨fun _ => Nat.zero_le 2, Expr.allNarrow_nil⟩
  | cons left done =>
    obtain ⟨hleft, hdone⟩ := allNarrow_cons.mp h
    have hnew : AllNarrow [.operation s [left]] :=
      allNarrow_singleton.mpr ⟨fun _ => by simp [Expr.parts], hleft⟩
    exact allNarrow_cons.mpr ⟨hnew, hdone⟩

end Items

namespace Opened

/-- The token that an open part will have in the tree. -/
def head : Opened → List Token
  | some name => [⟨.function, name⟩]
  | none => []

theorem written_close_perm (o : Opened) (items : Items) :
    (written [o.close items]).Perm (o.head ++ written items) := by
  rw [written_singleton]
  cases o <;> exact (Expr.written_reverse_perm items).append_left _

theorem allNarrow_close (o : Opened) {items : Items} (h : AllNarrow items) :
    AllNarrow [o.close items] := by
  rw [allNarrow_singleton]
  cases o <;> exact ⟨nofun, Expr.allNarrow_reverse.mpr h⟩

end Opened

namespace Builder

/-! ## Tokens in the builder -/

/-- The tokens of the open parts and of the items before them. -/
def writtenBefore : List (Opened × Items) → List Token
  | [] => []
  | (o, before) :: outer => writtenBefore outer ++ (written before ++ o.head)

/-- The tokens of all nodes that have been made or opened. -/
def written (b : Builder) : List Token := writtenBefore b.outer ++ Expr.written b.items

theorem written_attach_perm (b : Builder) (e : Expr) :
    ({ b with items := b.items.attach e } : Builder).written.Perm
      (b.written ++ Expr.written [e]) := by
  rw [written, written, List.append_assoc]
  exact (b.items.written_attach_perm e).append_left _

theorem written_enter (o : Opened) (b : Builder) : (b.enter o).written = b.written ++ o.head := by
  rw [enter, written, writtenBefore, Expr.written_nil, List.append_nil, written, List.append_assoc]

/-- What a part is closed into has the tokens of the part. -/
theorem written_leave_perm (b : Builder) : b.leave.written.Perm b.written := by
  obtain ⟨items, outer⟩ := b
  cases outer with
  | nil => exact .refl _
  | cons part outer =>
    obtain ⟨o, before⟩ := part
    rw [leave, written, written, writtenBefore, List.append_assoc, List.append_assoc]
    exact ((before.written_attach_perm _).trans
      ((o.written_close_perm items).append_left _)).append_left _

/-- **Step.** A token that opens no call adds itself if it becomes a node. -/
theorem written_take_perm (b : Builder) (t : Token) :
    (b.take t).written.Perm (b.written ++ [t].filter Token.isHead) := by
  obtain ⟨k, s⟩ := t
  cases k with
  | number => exact b.written_attach_perm (.number s)
  | quoted => exact b.written_attach_perm (.quoted s)
  | reference => exact b.written_attach_perm (.reference s)
  | function => exact b.written_attach_perm (.call s [])
  | operator =>
    have hnew : (b.take ⟨.operator, s⟩).written =
        writtenBefore b.outer ++ (⟨.operator, s⟩ :: Expr.written b.items) := by
      rw [take, written, Items.written_operator]
    rw [hnew, written, List.append_assoc]
    exact (List.perm_append_singleton _ _).symm.append_left _
  | openBracket => exact .of_eq (b.written_enter none)
  | closeBracket => exact b.written_leave_perm.trans (.of_eq (List.append_nil _).symm)
  | _ => exact .of_eq (List.append_nil _).symm

/-- **Run.** The tokens of the nodes are those that have been read. -/
theorem written_read_perm (b : Builder) (ts : List Token) :
    (b.read ts).written.Perm (b.written ++ ts.filter Token.isHead) := by
  fun_induction read b ts with
  | case1 b => exact .of_eq (List.append_nil _).symm
  | case2 b t => exact b.written_take_perm t
  | case3 b t u ts h ih =>
    -- The name of the call becomes its token, and the bracket becomes none.
    obtain ⟨k, s⟩ := t
    obtain ⟨l, p⟩ := u
    obtain ⟨rfl, rfl⟩ : k = .function ∧ l = .openBracket := by simpa using h
    rw [written_enter, List.append_assoc] at ih
    exact ih
  | case4 b t u ts h ih =>
    refine ih.trans (((b.written_take_perm t).append_right _).trans (.of_eq ?_))
    rw [List.append_assoc, ← List.filter_append, List.singleton_append]

theorem written_finish_perm (items : Items) (outer : List (Opened × Items)) :
    (Expr.written (finish items outer)).Perm (writtenBefore outer ++ Expr.written items) := by
  induction outer generalizing items with
  | nil => exact Expr.written_reverse_perm items
  | cons part outer ih =>
    obtain ⟨o, before⟩ := part
    rw [finish, writtenBefore, List.append_assoc, List.append_assoc]
    exact (ih _).trans (((before.written_attach_perm _).trans
      ((o.written_close_perm items).append_left _)).append_left _)

/-! ## Operands in the builder -/

/-- All operations in the builder have at most two operands. -/
structure Narrow (b : Builder) : Prop where
  items : AllNarrow b.items
  outer : ∀ part ∈ b.outer, AllNarrow part.2

theorem Narrow.attach {b : Builder} (h : b.Narrow) {e : Expr} (he : AllNarrow [e]) :
    ({ b with items := b.items.attach e } : Builder).Narrow :=
  ⟨Items.allNarrow_attach he h.items, h.outer⟩

theorem Narrow.enter {b : Builder} (h : b.Narrow) (o : Opened) : (b.enter o).Narrow :=
  ⟨Expr.allNarrow_nil, List.forall_mem_cons.mpr ⟨h.items, h.outer⟩⟩

theorem Narrow.leave {b : Builder} (h : b.Narrow) : b.leave.Narrow := by
  obtain ⟨items, outer⟩ := b
  cases outer with
  | nil => exact h
  | cons part outer =>
    obtain ⟨hpart, houter⟩ := List.forall_mem_cons.mp h.outer
    exact ⟨Items.allNarrow_attach (Opened.allNarrow_close _ h.items) hpart, houter⟩

/-- **Step.** No token makes an operation with more than two operands. -/
theorem Narrow.take {b : Builder} (h : b.Narrow) (t : Token) : (b.take t).Narrow := by
  have hleaf {e : Expr} (hk : e.kind ≠ .operator) (hparts : e.parts = []) : AllNarrow [e] :=
    allNarrow_singleton.mpr ⟨fun he => absurd he hk, hparts ▸ Expr.allNarrow_nil⟩
  obtain ⟨k, s⟩ := t
  cases k with
  | number => exact h.attach (hleaf (e := .number s) nofun rfl)
  | quoted => exact h.attach (hleaf (e := .quoted s) nofun rfl)
  | reference => exact h.attach (hleaf (e := .reference s) nofun rfl)
  | function => exact h.attach (hleaf (e := .call s []) nofun rfl)
  | operator => exact ⟨Items.allNarrow_operator s h.items, h.outer⟩
  | openBracket => exact h.enter none
  | closeBracket => exact h.leave
  | _ => exact h

theorem narrow_read {b : Builder} (h : b.Narrow) (ts : List Token) : (b.read ts).Narrow := by
  fun_induction read b ts with
  | case1 b => exact h
  | case2 b t => exact h.take t
  | case3 b t u ts _ ih => exact ih (h.enter (some t.text))
  | case4 b t u ts _ ih => exact ih (h.take t)

theorem allNarrow_finish {items : Items} {outer : List (Opened × Items)} (h : AllNarrow items)
    (houter : ∀ part ∈ outer, AllNarrow part.2) : AllNarrow (finish items outer) := by
  induction outer generalizing items with
  | nil => exact Expr.allNarrow_reverse.mpr h
  | cons part outer ih =>
    obtain ⟨hpart, hrest⟩ := List.forall_mem_cons.mp houter
    exact ih (Items.allNarrow_attach (part.1.allNarrow_close h) hpart) hrest

end Builder

/-! ## The finished tree -/

namespace Expr

/-- The nodes of the tree have the tokens that become nodes, each once. -/
theorem written_ofTokens_perm (ts : List Token) :
    (written (ofTokens ts)).Perm (ts.filter Token.isHead) := by
  -- The tokens that are left out before the builder reads them would not become nodes.
  have hmatters : ∀ t : Token, (t.isHead && t.matters) = t.isHead := by
    rintro ⟨k, s⟩
    cases k <;> rfl
  have hread := Builder.written_read_perm .empty (ts.filter Token.matters)
  rw [List.filter_filter] at hread
  simp only [hmatters] at hread
  exact (Builder.written_finish_perm _ _).trans hread

theorem allNarrow_ofTokens (ts : List Token) : AllNarrow (ofTokens ts) := by
  have hempty : Builder.empty.Narrow := ⟨allNarrow_nil, nofun⟩
  have hread := Builder.narrow_read hempty (ts.filter Token.matters)
  exact Builder.allNarrow_finish hread.items hread.outer

/-- **Nodes of any tokens.** Balanced or not, the tokens are read as a tree whose leaves, from
    left to right, are the numerals, literals and references in their order, and whose operators
    and functions are those of the tokens, each as often as it occurs. An operation has at most
    two operands, and a leaf has nothing below it. -/
theorem nodes_ofTokens (ts : List Token) :
    let nodes := nodesOf (ofTokens ts)
    ((nodes.filter isLeaf).map fun n => (⟨n.kind, n.text⟩ : Token)) = ts.filter Token.isLeaf ∧
    (∀ k, k = .operator ∨ k = .function →
      ((nodes.filter fun n => n.kind = k).map text).Perm
        ((ts.filter fun t => t.kind = k).map Token.text)) ∧
    (∀ n ∈ nodes, n.kind = .operator → n.parts.length ≤ 2) ∧
    ∀ n ∈ nodes, n.isLeaf = true → n.parts = [] := by
  intro nodes
  refine ⟨?_, fun k hk => ?_, allNarrow_ofTokens ts, fun n _ hn => ?_⟩
  · rw [map_token_filter_isLeaf, ← written, ← leavesOf_eq, leavesOf_ofTokens]
  · have hgroup : k ≠ .group := by rcases hk with rfl | rfl <;> decide
    -- Every token of the kind becomes a node.
    have hkind : ∀ t : Token, (decide (t.kind = k) && t.isHead) = decide (t.kind = k) := by
      rintro ⟨l, s⟩
      rcases hk with rfl | rfl <;> cases l <;> rfl
    have hperm := ((written_ofTokens_perm ts).filter fun t => t.kind = k).map Token.text
    rw [List.filter_filter] at hperm
    simp only [hkind] at hperm
    rw [map_text_filter_kind hgroup]
    exact hperm
  · cases n with
    | number | quoted | reference => rfl
    | operation | call | group => exact nomatch hn

/-- A stray bracket, an operator with nothing before it, and a call that is never closed. -/
theorem nodes_ofTokens_unbalanced :
    let ts : List Token := [⟨.closeBracket, ")"⟩, ⟨.operator, "+"⟩, ⟨.number, "1"⟩,
      ⟨.function, "max"⟩, ⟨.openBracket, "("⟩, ⟨.operator, "*"⟩, ⟨.number, "2"⟩, ⟨.number, "3"⟩,
      ⟨.quoted, "4"⟩]
    let product := operation "*" [number "2", number "3"]
    ofTokens ts = [operation "+" [number "1", call "max" [product, quoted "4"]]] ∧
      (product ∈ nodesOf (ofTokens ts) ∧ product.kind = .operator ∧ product.parts.length ≤ 2) ∧
      (quoted "4" ∈ nodesOf (ofTokens ts) ∧ (quoted "4").parts = []) ∧
      (((nodesOf (ofTokens ts)).filter fun n => n.kind = .operator).map text).Perm ["+", "*"] := by
  intro ts product
  have htree : ofTokens ts = [operation "+" [number "1", call "max" [product, quoted "4"]]] := rfl
  have hproduct : product ∈ nodesOf (ofTokens ts) := by
    rw [htree]
    simp [nodesOf, nodes, product]
  have hquoted : quoted "4" ∈ nodesOf (ofTokens ts) := by
    rw [htree]
    simp [nodesOf, nodes]
  obtain ⟨-, hkinds, hoperands, hleaves⟩ := nodes_ofTokens ts
  exact ⟨htree, ⟨hproduct, rfl, hoperands product hproduct rfl⟩,
    ⟨hquoted, hleaves _ hquoted rfl⟩, hkinds .operator (.inl rfl)⟩

end Expr

end Formulary
