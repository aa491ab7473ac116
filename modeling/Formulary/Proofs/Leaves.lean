/-
  Formulary.Proofs.Leaves

  The leaves of the tree that tokens are read as.

  Whatever the tokens are, balanced or not, the builder keeps their values and the order of
  them: `leavesOf_ofTokens` says that the numerals, literals and references of the tree are
  those of the tokens, from left to right. It is an invariant of the builder, whose state
  holds the leaves of its open parts and of its items one behind the other.

  Zeros and brackets add no reference, so the tree of a formula refers to the names of its
  own tokens (`references_ofFormula`), and its value depends on nothing but the values of
  these names (`Expr.value_congr`).
-/

import Formulary.Expr.Value
import Formulary.Proofs.LeftOperands

namespace Formulary

/-! ## Leaves -/

/-- A token that becomes a leaf of the tree. -/
def Token.isLeaf (t : Token) : Bool := t.kind ∈ [.number, .quoted, .reference]

/-- A token that refers to a name. -/
def Token.isReference (t : Token) : Bool := t.kind = .reference

namespace Expr

mutual

/-- The tokens of the numerals, literals and references of an expression. -/
def leaves : Expr → List Token
  | number s => [⟨.number, s⟩]
  | quoted s => [⟨.quoted, s⟩]
  | reference n => [⟨.reference, n⟩]
  | operation _ es | call _ es | group es => leavesOf es

/-- The leaves of expressions from left to right. -/
def leavesOf : List Expr → List Token
  | [] => []
  | e :: es => e.leaves ++ leavesOf es

end

theorem leavesOf_append (es fs : List Expr) : leavesOf (es ++ fs) = leavesOf es ++ leavesOf fs := by
  induction es with
  | nil => rfl
  | cons e es ih => rw [List.cons_append, leavesOf, ih, leavesOf, List.append_assoc]

theorem leavesOf_singleton (e : Expr) : leavesOf [e] = e.leaves := by
  rw [leavesOf, leavesOf, List.append_nil]

theorem leavesOf_reverse_cons (e : Expr) (es : List Expr) :
    leavesOf (e :: es).reverse = leavesOf es.reverse ++ e.leaves := by
  rw [List.reverse_cons, leavesOf_append, leavesOf_singleton]

end Expr

open Formulary.Expr (leavesOf leavesOf_append leavesOf_singleton leavesOf_reverse_cons)

/-! ## The builder keeps leaves -/

theorem Items.leavesOf_attach (e : Expr) (items : Items) :
    leavesOf (items.attach e).reverse = leavesOf items.reverse ++ e.leaves := by
  cases items with
  | nil => exact leavesOf_reverse_cons e []
  | cons last done =>
    cases last with
    | operation s es =>
      rw [attach]
      split
      · rw [leavesOf_reverse_cons, leavesOf_reverse_cons, Expr.leaves, Expr.leaves,
          leavesOf_append, leavesOf_singleton, List.append_assoc]
      · exact leavesOf_reverse_cons e _
    | _ => exact leavesOf_reverse_cons e _

/-- An operator takes an item along, with its leaves. -/
theorem Items.leavesOf_operator (s : String) (items : Items) :
    leavesOf (items.operator s).reverse = leavesOf items.reverse := by
  cases items with
  | nil => rfl
  | cons left done =>
    rw [operator, leavesOf_reverse_cons, leavesOf_reverse_cons, Expr.leaves, leavesOf_singleton]

theorem Opened.leaves_close (o : Opened) (items : Items) :
    (o.close items).leaves = leavesOf items.reverse := by
  cases o <;> rw [close, Expr.leaves]

namespace Builder

/-- The leaves before an open part, the outermost part first. -/
def leavesBefore : List (Opened × Items) → List Token
  | [] => []
  | (_, before) :: outer => leavesBefore outer ++ leavesOf before.reverse

/-- The leaves that have been read. -/
def leaves (b : Builder) : List Token := leavesBefore b.outer ++ leavesOf b.items.reverse

theorem leaves_attach (b : Builder) (e : Expr) :
    ({ b with items := b.items.attach e } : Builder).leaves = b.leaves ++ e.leaves := by
  rw [leaves, Items.leavesOf_attach, leaves, List.append_assoc]

theorem leaves_enter (o : Opened) (b : Builder) : (b.enter o).leaves = b.leaves := by
  rw [enter, leaves, leavesBefore, leaves]
  exact List.append_nil _

theorem leaves_leave (b : Builder) : b.leave.leaves = b.leaves := by
  obtain ⟨items, outer⟩ := b
  cases outer with
  | nil => rfl
  | cons part outer =>
    rw [leave, leaves, Items.leavesOf_attach, Opened.leaves_close, leaves, leavesBefore,
      List.append_assoc]

/-- One token adds itself if it is a leaf. -/
theorem leaves_take (b : Builder) (t : Token) :
    (b.take t).leaves = b.leaves ++ [t].filter Token.isLeaf := by
  obtain ⟨k, s⟩ := t
  cases k with
  | number => exact leaves_attach b (.number s)
  | quoted => exact leaves_attach b (.quoted s)
  | reference => exact leaves_attach b (.reference s)
  | function => exact leaves_attach b (.call s [])
  | operator =>
    have hkeep : (b.take ⟨.operator, s⟩).leaves = b.leaves := by
      rw [take, leaves, Items.leavesOf_operator, leaves]
    rw [hkeep]
    exact (List.append_nil _).symm
  | openBracket => exact (leaves_enter none b).trans (List.append_nil _).symm
  | closeBracket => exact (leaves_leave b).trans (List.append_nil _).symm
  | _ => exact (List.append_nil _).symm

theorem leaves_read (b : Builder) (ts : List Token) :
    (b.read ts).leaves = b.leaves ++ ts.filter Token.isLeaf := by
  fun_induction read b ts with
  | case1 b => exact (List.append_nil _).symm
  | case2 b t => exact leaves_take b t
  | case3 b t u ts h ih =>
    -- Neither the name of a call nor its bracket is a leaf.
    obtain ⟨ht, hu⟩ : t.kind = .function ∧ u.kind = .openBracket := by simpa using h
    have htl : t.isLeaf = false := by simp [Token.isLeaf, ht]
    have hul : u.isLeaf = false := by simp [Token.isLeaf, hu]
    rw [ih, leaves_enter, List.filter_cons, htl, if_neg Bool.false_ne_true, List.filter_cons, hul,
      if_neg Bool.false_ne_true]
  | case4 b t u ts h ih =>
    rw [ih, leaves_take, List.append_assoc, ← List.filter_append, List.singleton_append]

theorem leavesOf_finish (items : Items) (outer : List (Opened × Items)) :
    leavesOf (finish items outer) = leavesBefore outer ++ leavesOf items.reverse := by
  induction outer generalizing items with
  | nil => rfl
  | cons part outer ih =>
    rw [finish, ih, Items.leavesOf_attach, Opened.leaves_close, leavesBefore, List.append_assoc]

end Builder

/-- **Leaves.** The leaves of the tree are those of the tokens, in their order. -/
theorem Expr.leavesOf_ofTokens (ts : List Token) :
    leavesOf (ofTokens ts) = ts.filter Token.isLeaf := by
  -- The tokens dropped before building are no leaves.
  have hmatters : ∀ t : Token, (t.isLeaf && t.matters) = t.isLeaf := by
    rintro ⟨k, s⟩
    cases k <;> rfl
  have hread := Builder.leaves_read .empty (ts.filter Token.matters)
  rw [List.filter_filter] at hread
  simp only [hmatters] at hread
  exact (Builder.leavesOf_finish _ _).trans hread

/-! ## Zeros and brackets -/

namespace Token

variable {p : Token → Bool}

theorem filter_bracketed
    (hbracket : ∀ t : Token, t.kind = .openBracket ∨ t.kind = .closeBracket → p t = false)
    (ts : List Token) : (bracketed ts).filter p = ts.filter p := by
  have hopening (n : Nat) : (opening n).filter p = [] := by
    rw [opening, List.filter_replicate_of_neg]
    simp [hbracket ⟨.openBracket, "("⟩ (.inl rfl)]
  have hclosing (n : Nat) : (closing n).filter p = [] := by
    rw [closing, List.filter_replicate_of_neg]
    simp [hbracket ⟨.closeBracket, ")"⟩ (.inr rfl)]
  -- Whatever stands around a token are brackets, so only the token itself can be kept.
  have htoken (r : Ranking) (t : Token) : (bracketedBy r t).filter p = [t].filter p := by
    rw [bracketedBy]
    split
    · next hk =>
      have ht := hbracket t (.inl hk)
      rw [hopening, List.filter_cons_of_neg (by simp [ht]), List.filter_nil]
    · next hk =>
      have ht := hbracket t (.inr hk)
      rw [hclosing, List.filter_cons_of_neg (by simp [ht]), List.filter_nil]
    · rw [List.filter_append, hclosing, List.nil_append, ← List.singleton_append,
        List.filter_append, hopening, List.append_nil]
  have hall (r : Ranking) : (ts.flatMap (bracketedBy r)).filter p = ts.filter p := by
    induction ts with
    | nil => rfl
    | cons t ts ih =>
      rw [List.flatMap_cons, List.filter_append, ih, htoken, ← List.filter_append,
        List.singleton_append]
  rw [bracketed, List.filter_append, List.filter_append, hopening, hclosing, hall,
    List.append_nil, List.nil_append]

end Token

/-- **References.** The tree of a formula refers to the names of its reference tokens, in their
    order. -/
theorem Expr.references_ofFormula (formula : String) :
    (leavesOf (ofFormula formula)).filter Token.isReference =
      (tokenize formula).filter Token.isReference := by
  have hleaf : ∀ t : Token, (t.isReference && t.isLeaf) = t.isReference := by
    rintro ⟨k, s⟩
    cases k <;> rfl
  have hbracket : ∀ t : Token, t.kind = .openBracket ∨ t.kind = .closeBracket →
      t.isReference = false := by
    rintro ⟨k, s⟩ (rfl | rfl) <;> rfl
  rw [ofFormula, leavesOf_ofTokens, List.filter_filter]
  simp only [hleaf]
  rw [Token.filter_bracketed hbracket, Token.supplyZeros, Token.filter_supplyZerosAfter rfl]

/-! ## Values -/

namespace Expr

variable {look other : String → String}

mutual

/-- The value of an expression depends on the values of the names it refers to. -/
theorem valueM_congr : ∀ e : Expr,
    (∀ t ∈ e.leaves, t.kind = .reference → look t.text = other t.text) →
      valueM (m := Id) look e = valueM (m := Id) other e
  | number _, _ => rfl
  | quoted _, _ => rfl
  | reference n, h => h ⟨.reference, n⟩ List.mem_cons_self rfl
  | operation s es, h => by rw [valueM, valuesM_congr es h, valueM]
  | call f es, h => by rw [valueM, valuesM_congr es h, valueM]
  | group es, h => by rw [valueM, valuesM_congr es h, valueM]

theorem valuesM_congr : ∀ es : List Expr,
    (∀ t ∈ leavesOf es, t.kind = .reference → look t.text = other t.text) →
      valuesM (m := Id) look es = valuesM (m := Id) other es
  | [], _ => rfl
  | e :: es, h => by
    have he := e.valueM_congr fun t ht => h t (List.mem_append_left _ ht)
    have hes := valuesM_congr es fun t ht => h t (List.mem_append_right _ ht)
    rw [valuesM, he, hes, valuesM]

end

/-- The value of a formula depends on the values of the names that its tokens refer to. -/
theorem value_congr {formula : String}
    (h : ∀ t ∈ tokenize formula, t.kind = .reference → look t.text = other t.text) :
    value look (ofFormula formula) = value other (ofFormula formula) := by
  have hleaves : ∀ t ∈ leavesOf (ofFormula formula), t.kind = .reference →
      look t.text = other t.text := by
    intro t ht hk
    have hmem : t ∈ (leavesOf (ofFormula formula)).filter Token.isReference :=
      List.mem_filter.mpr ⟨ht, decide_eq_true hk⟩
    rw [references_ofFormula] at hmem
    exact h t (List.mem_filter.mp hmem).1 hk
  rw [value, joinedM, valuesM_congr _ hleaves]
  rfl

end Expr

end Formulary
