/-
  Formulary.Proofs.Reading

  Runs of the builder, described by what they add to the items read so far.

  `ReadsAs ts e` says that, whatever has been read before, the tokens `ts` are read as the
  one value `e`; `ReadsItems ts es` says that they are read as the items `es`, unless an
  operation still waits for its right operand. Both compose: a bracket around items is a
  value, items side by side are items, an operator between items and a value is an item,
  and levels of brackets around items are groups around them.
-/

import Formulary.Expr
import Formulary.Proofs.Grammar

namespace Formulary

/-! ## Finished items -/

/-- An expression that does not wait for an operand. -/
def Expr.Complete (e : Expr) : Prop := ∀ s es, e = .operation s es → 2 ≤ es.length

/-- Items of which the last one does not wait for an operand. -/
def Items.Settled (items : Items) : Prop := ∀ e ∈ items.head?, e.Complete

/-- A value behind settled items is an item of its own. -/
theorem Items.Settled.attach {items : Items} (h : items.Settled) (e : Expr) :
    items.attach e = e :: items := by
  cases items with
  | nil => rfl
  | cons last done =>
    cases last with
    | operation s es =>
      have hlen : 2 ≤ es.length := h _ rfl s es rfl
      rw [Items.attach, if_neg (by omega)]
    | _ => rfl

theorem Items.settled_nil : Items.Settled [] := by simp [Items.Settled]

theorem Items.settled_cons {e : Expr} (items : Items) (h : e.Complete) :
    Items.Settled (e :: items) := by
  simpa [Items.Settled] using h

/-! ## Runs of the builder -/

namespace Builder

/-- The tokens are read as one value, whatever has been read before. -/
structure ReadsAs (ts : List Token) (e : Expr) : Prop where
  complete : e.Complete
  read (b : Builder) (rest : List Token) :
    b.read (ts ++ rest) = ({ b with items := b.items.attach e } : Builder).read rest

/-- The tokens are read as items behind settled ones, and leave them settled. -/
structure ReadsItems (ts : List Token) (es : List Expr) : Prop where
  settled {items : Items} (h : items.Settled) : Items.Settled (es.reverse ++ items)
  read {items : Items} (h : items.Settled) (outer : List (Opened × Items)) (rest : List Token) :
    (⟨items, outer⟩ : Builder).read (ts ++ rest) = (⟨es.reverse ++ items, outer⟩ : Builder).read rest

/-- A token that is not a function name is taken on its own. -/
theorem read_cons {t : Token} (b : Builder) (ts : List Token) (h : t.kind ≠ .function) :
    b.read (t :: ts) = (b.take t).read ts := by
  cases ts with
  | nil => rfl
  | cons u ts => simp [read, h]

/-- A function name and its bracket open a call. -/
theorem read_function (b : Builder) (f : String) (ts : List Token) :
    b.read (⟨.function, f⟩ :: .leftBracket :: ts) = (b.enter (some f)).read ts := by
  simp [read, Token.leftBracket]

theorem readsItems_nil : ReadsItems [] [] := ⟨fun h => h, fun _ _ _ => rfl⟩

theorem ReadsAs.items {ts : List Token} {e : Expr} (h : ReadsAs ts e) : ReadsItems ts [e] where
  settled _ := Items.settled_cons _ h.complete
  read hs outer rest := by
    rw [h.read, hs.attach]
    rfl

theorem ReadsItems.append {ts us : List Token} {es fs : List Expr}
    (h : ReadsItems ts es) (k : ReadsItems us fs) : ReadsItems (ts ++ us) (es ++ fs) where
  settled hs := by
    simpa using k.settled (h.settled hs)
  read hs outer rest := by
    rw [List.append_assoc, h.read hs, k.read (h.settled hs)]
    simp

/-- An operator between items and a value. -/
theorem ReadsItems.operation {ts us : List Token} {left right : Expr}
    (h : ReadsItems ts [left]) (o : Operator) (k : ReadsAs us right) :
    ReadsItems (ts ++ o.token :: us) [.operation o.symbol [left, right]] where
  settled _ := by
    apply Items.settled_cons
    intro s es heq
    obtain ⟨rfl, rfl⟩ := (Expr.operation.injEq ..).mp heq
    exact Nat.le_refl 2
  read {items} hs outer rest := by
    have htake : (⟨left :: items, outer⟩ : Builder).take o.token =
        ⟨.operation o.symbol [left] :: items, outer⟩ := rfl
    have hattach : Items.attach right (.operation o.symbol [left] :: items) =
        .operation o.symbol [left, right] :: items := rfl
    rw [List.append_assoc, h.read hs, List.cons_append,
      read_cons _ _ (by simp [Operator.token])]
    rw [List.reverse_singleton, List.singleton_append, htake, k.read, hattach]
    rfl

/-- What a bracket has opened is finished by the closing bracket behind its items. -/
theorem ReadsItems.close {ts : List Token} {es : List Expr} (h : ReadsItems ts es)
    (b : Builder) (o : Opened) (rest : List Token) :
    (b.enter o).read (ts ++ .rightBracket :: rest) =
      ({ b with items := b.items.attach (o.close es.reverse) } : Builder).read rest := by
  have hread := h.read Items.settled_nil ((o, b.items) :: b.outer) (.rightBracket :: rest)
  rw [List.append_nil] at hread
  rw [enter, hread, read_cons _ _ (by decide)]
  rfl

/-- Items in a bracket are a group. -/
theorem ReadsItems.group {ts : List Token} {es : List Expr} (h : ReadsItems ts es) :
    ReadsAs (.leftBracket :: (ts ++ [.rightBracket])) (.group es) where
  complete _ _ heq := nomatch heq
  read b rest := by
    have hopen : b.take .leftBracket = b.enter none := rfl
    rw [List.cons_append, List.append_assoc, read_cons _ _ (by decide), hopen,
      List.singleton_append, h.close, Opened.close, List.reverse_reverse]

/-- Items in the bracket of a call are its arguments. -/
theorem ReadsItems.call {ts : List Token} {es : List Expr} (h : ReadsItems ts es) (f : String) :
    ReadsAs (⟨.function, f⟩ :: .leftBracket :: (ts ++ [.rightBracket])) (.call f es) where
  complete _ _ heq := nomatch heq
  read b rest := by
    rw [List.cons_append, List.cons_append, List.append_assoc, read_function,
      List.singleton_append, h.close, Opened.close, List.reverse_reverse]

end Builder

/-! ## Levels of brackets -/

open Token (opening closing)

theorem Token.opening_succ (n : Nat) : opening (n + 1) = .leftBracket :: opening n := rfl

theorem Token.closing_succ (n : Nat) : closing (n + 1) = closing n ++ [.rightBracket] :=
  List.replicate_succ'

theorem Token.opening_add (m n : Nat) : opening (m + n) = opening m ++ opening n :=
  (List.replicate_append_replicate ..).symm

theorem Token.closing_add (m n : Nat) : closing (m + n) = closing m ++ closing n :=
  (List.replicate_append_replicate ..).symm

/-- Items inside a number of groups. -/
def Expr.nested : Nat → List Expr → List Expr
  | 0, es => es
  | n + 1, es => [.group (nested n es)]

/-- One expression inside a number of groups. -/
def Expr.wrapped : Nat → Expr → Expr
  | 0, e => e
  | n + 1, e => .group [wrapped n e]

theorem Expr.nested_singleton (n : Nat) (e : Expr) : nested n [e] = [wrapped n e] := by
  induction n with
  | zero => rfl
  | succ n ih => rw [nested, ih, wrapped]

/-- Levels of brackets around items are groups around them. -/
theorem Builder.ReadsItems.levels {ts : List Token} {es : List Expr} (h : ReadsItems ts es)
    (n : Nat) : ReadsItems (opening n ++ (ts ++ closing n)) (Expr.nested n es) := by
  induction n with
  | zero =>
    have hts : opening 0 ++ (ts ++ closing 0) = ts := by simp [opening, closing]
    rw [hts, Expr.nested]
    exact h
  | succ n ih =>
    have hts : opening (n + 1) ++ (ts ++ closing (n + 1)) =
        .leftBracket :: ((opening n ++ (ts ++ closing n)) ++ [.rightBracket]) := by
      simp [Token.opening_succ, Token.closing_succ]
    rw [hts]
    exact ih.group.items

end Formulary
