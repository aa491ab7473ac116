/-
  Formulary.Proofs.LookUps

  Which names an evaluation looks up, and in which order.

  An evaluation is `Deferred` if the names may as well be looked up first, all of them in
  order, and the answers used later. Steps that look up nothing or one name are, and two
  of them one after the other are, so by induction on the tree the value of every expression
  is (`deferred_valueM`). It is thus a function of the answers alone (`joinedM_ofFormula`),
  in whatever monad they are looked up, and the names are those of the reference tokens.

  What a plain look-up gives (`value_ofFormula`) and what is noted of its names
  (`trace_ofFormula`) are two instances.
-/

import Formulary.Proofs.Leaves

namespace Formulary

/-- The names that tokens refer to, in their order. -/
def Token.referenceNames (ts : List Token) : List String :=
  (ts.filter Token.isReference).map Token.text

theorem Token.referenceNames_append (ts us : List Token) :
    referenceNames (ts ++ us) = referenceNames ts ++ referenceNames us := by
  rw [referenceNames, List.filter_append, List.map_append, referenceNames, referenceNames]

namespace Expr

/-! ## Looking up first -/

/-- A look-up that gives the next of the answers in store, whatever the name. -/
def next (_ : String) : StateM (List String) String :=
  modifyGet fun answers => (answers.headD "", answers.tail)

/-- The result with answers in store, and the answers that are left. -/
def answering {α : Type} (x : StateM (List String) α) (answers : List String) : α × List String :=
  (x.run answers).run

section Deferred

variable {m : Type → Type} [Monad m] {α β : Type} {look : String → m String}
  {names others : List String} {x : m α} {y : StateM (List String) α} {f : α → m β}
  {g : α → StateM (List String) β}

/-- Looking up the names first and using the answers later makes no difference, and answers to
    further names are left over. -/
def Deferred (look : String → m String) (names : List String) (x : m α)
    (y : StateM (List String) α) : Prop :=
  ∀ more : List String, answering y <$> (names ++ more).mapM look = do
    let a ← x
    let answers ← more.mapM look
    return (a, answers)

variable [LawfulMonad m]

theorem Deferred.pure (look : String → m String) (a : α) :
    Deferred look [] (Pure.pure a) (Pure.pure a) := by
  intro more
  have hpure : answering (Pure.pure a) = Prod.mk a := rfl
  rw [hpure, List.nil_append, pure_bind, bind_pure_comp]

theorem Deferred.next (look : String → m String) (n : String) :
    Deferred look [n] (look n) (next n) := by
  intro more
  simp [answering, Expr.next]

/-- One step after the other looks up the names of both. -/
theorem Deferred.bind (h : Deferred look names x y) (k : ∀ a, Deferred look others (f a) (g a)) :
    Deferred look (names ++ others) (x >>= f) (y >>= g) := by
  intro more
  have hrun : answering (y >>= g) = (fun p => answering (g p.1) p.2) ∘ answering y := rfl
  calc answering (y >>= g) <$> (names ++ others ++ more).mapM look
      = (fun p => answering (g p.1) p.2) <$> answering y <$>
          (names ++ (others ++ more)).mapM look := by
        rw [hrun, List.append_assoc, comp_map]
    _ = x >>= fun a => answering (g a) <$> (others ++ more).mapM look := by
        rw [h]
        simp only [map_bind, bind_pure_comp, Functor.map_map]
    _ = (x >>= f) >>= fun b => more.mapM look >>= fun answers => Pure.pure (b, answers) := by
        rw [bind_assoc]
        exact bind_congr fun a => k a more

theorem Deferred.map (h : Deferred look names x y) (f : α → β) :
    Deferred look names (x >>= fun a => Pure.pure (f a)) (y >>= fun a => Pure.pure (f a)) := by
  have hbind := h.bind fun a => Deferred.pure look (f a)
  rwa [List.append_nil] at hbind

theorem Deferred.eq_map (h : Deferred look names x y) :
    x = (fun answers => (answering y answers).1) <$> names.mapM look := by
  have hnil := congrArg (Prod.fst <$> ·) (h [])
  simpa using hnil.symm

mutual

theorem deferred_valueM (look : String → m String) : ∀ e : Expr,
    Deferred look (Token.referenceNames e.leaves) (valueM look e) (valueM next e)
  | number s => .pure look s
  | quoted s => .pure look s
  | reference n => .next look n
  | operation s es => (deferred_valuesM look es).map (applyOperator s)
  | call f es => (deferred_valuesM look es).map (applyFunction f)
  | group es => (deferred_valuesM look es).map String.join

theorem deferred_valuesM (look : String → m String) : ∀ es : List Expr,
    Deferred look (Token.referenceNames (leavesOf es)) (valuesM look es) (valuesM next es)
  | [] => .pure look []
  | e :: es => by
    rw [leavesOf, Token.referenceNames_append]
    exact (deferred_valueM look e).bind fun v => (deferred_valuesM look es).map (v :: ·)

end

/-- The value of expressions whose references have the given answers, in order. -/
def fill (es : List Expr) (answers : List String) : String :=
  (answering (joinedM next es) answers).1

/-- **Look-ups.** An evaluation looks up the references of the expressions in order and fills
    the answers in. -/
theorem joinedM_eq (look : String → m String) (es : List Expr) :
    joinedM look es = fill es <$> (Token.referenceNames (leavesOf es)).mapM look :=
  ((deferred_valuesM look es).map String.join).eq_map

/-- The references of a formula are those of its tokens. -/
theorem joinedM_ofFormula (look : String → m String) (formula : String) :
    joinedM look (ofFormula formula) =
      fill (ofFormula formula) <$> (Token.referenceNames (tokenize formula)).mapM look := by
  rw [joinedM_eq, Token.referenceNames, references_ofFormula, Token.referenceNames]

end Deferred

/-! ## Plain look-ups -/

variable (look : String → String)

theorem value_ofFormula (formula : String) :
    value look (ofFormula formula) =
      fill (ofFormula formula) ((Token.referenceNames (tokenize formula)).map look) := by
  rw [value, joinedM_ofFormula]
  exact congrArg (fill (ofFormula formula)) List.idRun_mapM

/-- Noting names, the latest first. -/
theorem run_mapM_noting (names noted : List String) :
    (names.mapM (noting look)).run noted = (names.map look, names.reverse ++ noted) := by
  induction names generalizing noted with
  | nil => rfl
  | cons n names ih =>
    have hcons : ((n :: names).mapM (noting look)).run noted =
        (fun p => (look n :: p.1, p.2)) ((names.mapM (noting look)).run (n :: noted)) := by
      rw [List.mapM_cons]
      rfl
    rw [hcons, ih, List.reverse_cons, List.append_assoc]
    rfl

theorem trace_ofFormula (formula : String) :
    trace look (ofFormula formula) =
      (value look (ofFormula formula), Token.referenceNames (tokenize formula)) := by
  have hrun : (joinedM (noting look) (ofFormula formula)).run [] =
      (value look (ofFormula formula), (Token.referenceNames (tokenize formula)).reverse) := by
    rw [joinedM_ofFormula, StateT.run_map, run_mapM_noting, List.append_nil, value_ofFormula]
    rfl
  rw [trace, hrun]
  exact congrArg (Prod.mk _) (List.reverse_reverse _)

/-- **References asked for.** An evaluation of a formula, well-formed or not, looks up the names
    of its reference tokens, each one once for every time it is written and in the order of the
    tokens, so its value depends on the values of these names alone. The same is true of a
    look-up with effects: all names are asked for in this order, and the value is a function
    of the answers. -/
theorem lookUps_ofFormula (formula : String) :
    (∀ look, trace look (ofFormula formula) =
      (value look (ofFormula formula), Token.referenceNames (tokenize formula))) ∧
    (∀ look other, (∀ n ∈ Token.referenceNames (tokenize formula), look n = other n) →
      value look (ofFormula formula) = value other (ofFormula formula)) ∧
    ∀ (m : Type → Type) [Monad m] [LawfulMonad m] (look : String → m String),
      joinedM look (ofFormula formula) =
        fill (ofFormula formula) <$> (Token.referenceNames (tokenize formula)).mapM look := by
  refine ⟨fun look => trace_ofFormula look formula, fun look other h => ?_, fun m _ _ look => ?_⟩
  · rw [value_ofFormula, value_ofFormula, List.map_congr_left h]
  · exact joinedM_ofFormula look formula

/-- A sum that refers twice to one of its names, and look-ups that differ elsewhere or fail. -/
theorem lookUps_ofFormula_sum :
    Token.referenceNames (tokenize "\x7ba\x7d+max(\x7bb\x7d,\x7ba\x7d)") = ["a", "b", "a"] ∧
      value (fun n => if n = "c" then "1" else "2")
          (ofFormula "\x7ba\x7d+max(\x7bb\x7d,\x7ba\x7d)") =
        value (fun _ => "2") (ofFormula "\x7ba\x7d+max(\x7bb\x7d,\x7ba\x7d)") ∧
      joinedM (fun n => if n = "b" then none else some n)
        (ofFormula "\x7ba\x7d+max(\x7bb\x7d,\x7ba\x7d)") = none := by
  have hnames : Token.referenceNames (tokenize "\x7ba\x7d+max(\x7bb\x7d,\x7ba\x7d)") =
      ["a", "b", "a"] := by
    decide +kernel
  obtain ⟨-, hagree, hanswers⟩ := lookUps_ofFormula "\x7ba\x7d+max(\x7bb\x7d,\x7ba\x7d)"
  refine ⟨hnames, hagree _ _ ?_, ?_⟩
  · rw [hnames]
    decide
  · rw [hanswers, hnames]
    rfl

end Expr

end Formulary
