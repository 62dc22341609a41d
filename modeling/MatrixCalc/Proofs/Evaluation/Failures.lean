/-
**How statements can fail.**

An operator of a parsed expression has its operands, and the rows of its literals have the same length.  The
shapes of two matrices are looked at before the matrices are combined, so that these have nothing to refuse.
So evaluation fails for one of five reasons only: a variable without a value, a matrix in a cell, shapes that
do not fit, a divisor without an inverse, or an assignment to what is no variable.  A sixth is a division by
zero in an inversion, and that needs a tolerance that is no number.

Main definitions:

* `MatrixCalc.Eval.Ensures` — what an evaluation gives, and how it fails, from wherever it starts;
* `MatrixCalc.EvalError.Expected`, `MatrixCalc.Failure.Expected` — the five errors, and the sixth failure.

Main results:

* `MatrixCalc.Value.apply_cases` — how an arithmetic operator can fail;
* `MatrixCalc.Value.apply_ne_refused` — **matrices never refuse what an operator asks them for**;
* `MatrixCalc.ExprTree.Rectangular.ensures_evaluate` — how trees with rectangular literals can fail;
* `MatrixCalc.Parse.Obtained.evaluate_cases` — how obtained statements can fail;
* `MatrixCalc.Statement.evaluate_closed` — **with a tolerance of at least zero, obtained statements have a
  value or fail with one of five errors**.
-/

import MatrixCalc.Proofs.Dense.Cells
import MatrixCalc.Proofs.Dense.Divisors
import MatrixCalc.Proofs.Grammar.Parsed
import MatrixCalc.Proofs.Session.Attempts

set_option autoImplicit false

namespace MatrixCalc

/-- The errors that well-formed statements can have. -/
inductive EvalError.Expected : EvalError → Prop where
  | unbound (name : String) : Expected (.unbound name)
  | nestedMatrices : Expected .nestedMatrices
  | dimensions (left right : Shape) : Expected (.dimensions left right)
  | singularDivisor : Expected .singularDivisor
  | assignmentTarget : Expected .assignmentTarget

/-- How well-formed statements can fail: with one of their errors or, if the tolerance is no number, for a
division by zero. -/
inductive Failure.Expected (tolerance : Float) : Failure → Prop where
  | eval {e : EvalError} (h : e.Expected) : Expected tolerance (.eval e)
  | division (h : tolerance.isNaN = true) : Expected tolerance (.division .zeroDivision)

/-! ### Operators -/

namespace Value

section

variable {α : Type} {P : Failure → Prop}

/-- How combining two values can fail: for the shapes of two matrices or, once these fit, as the operation on
the matrices does. -/
theorem combine_cases {f left right : α → α → α} {fits : Shape → Shape → Bool}
    {whole : DenseMatrix α → DenseMatrix α → Except Failure (DenseMatrix α)}
    (hshapes : ∀ l r, P (.eval (.dimensions l r)))
    (hwhole : ∀ a b, fits a.shape b.shape = true →
      (∃ x, whole a b = .ok x) ∨ ∃ e, whole a b = .error e ∧ P e) (v w : Value α) :
    (∃ x, combine f left right fits whole v w = .ok x) ∨
      ∃ e, combine f left right fits whole v w = .error e ∧ P e := by
  match v, w with
  | .scalar x, .scalar y | .scalar x, .matrix b | .matrix a, .scalar y => exact .inl ⟨_, rfl⟩
  | .matrix a, .matrix b =>
      rw [combine]
      split
      · next hfits =>
          rcases hwhole a b hfits with ⟨x, hx⟩ | ⟨e, he, hP⟩
          · exact .inl ⟨.matrix x, by rw [hx]; rfl⟩
          · exact .inr ⟨e, by rw [he]; rfl, hP⟩
      · exact .inr ⟨_, rfl, hshapes _ _⟩

/-- Matrices refuse no sum or difference of matrices whose shapes were found to be the same. -/
theorem exists_zipWith_of_fits (f : α → α → α) {a b : DenseMatrix α} (hfits : (a.shape == b.shape) = true) :
    ∃ x, (a.zipWith f b).mapError Failure.refused = .ok x := by
  obtain ⟨x, hx⟩ := DenseMatrix.exists_zipWith_iff.2 (beq_iff_eq.1 hfits)
  exact ⟨x, by rw [hx]; rfl⟩

/-- Matrices refuse no product of matrices whose shapes were found to fit. -/
theorem exists_mul_of_fits [Zero α] [Add α] [Mul α] {a b : DenseMatrix α}
    (hfits : (a.shape.cols == b.shape.rows) = true) :
    ∃ x, (a.mul b).mapError Failure.refused = .ok x := by
  obtain ⟨x, hx⟩ := DenseMatrix.exists_mul_iff.2 (beq_iff_eq.1 hfits)
  exact ⟨x, by rw [hx]; rfl⟩

variable [Zero α] [One α] [Add α] [Sub α] [Mul α] [Div α] [Neg α] [Numeric α] {tolerance : α}

/-- How an arithmetic operator can fail: for the shapes of two matrices, for want of an inverse, or for a
division by zero on the way to one.  Assignment is no arithmetic operator. -/
theorem apply_cases (hshapes : ∀ l r, P (.eval (.dimensions l r))) (hsingular : P (.eval .singularDivisor))
    (hdivision : ∀ n (g : Grid α n n), g.inverse? tolerance = .error .zeroDivision →
      P (.division .zeroDivision)) {op : Operator} (hop : op ≠ .assign) (v w : Value α) :
    (∃ x, apply tolerance op v w = .ok x) ∨ ∃ e, apply tolerance op v w = .error e ∧ P e := by
  cases op with
  | add =>
      rw [apply, add]
      exact combine_cases hshapes (fun a b hfits => .inl (exists_zipWith_of_fits _ hfits)) v w
  | subtract =>
      rw [apply, sub]
      exact combine_cases hshapes (fun a b hfits => .inl (exists_zipWith_of_fits _ hfits)) v w
  | multiply =>
      rw [apply, mul]
      exact combine_cases hshapes (fun a b hfits => .inl (exists_mul_of_fits hfits)) v w
  | divide =>
      rw [apply, div]
      refine combine_cases hshapes (fun a b hfits => ?_) v w
      obtain ⟨n, g, -, ⟨hzero, h⟩ | h | ⟨p, h⟩⟩ := divMatrix_cases tolerance hfits
      · exact .inr ⟨_, h, hdivision n g hzero⟩
      · exact .inr ⟨_, h, hsingular⟩
      · exact .inl ⟨_, h⟩
  | assign => exact absurd rfl hop

/-- **Matrices never refuse what an operator asks them for**: the operator has looked at their shapes before,
and at least as closely. -/
theorem apply_ne_refused (op : Operator) (v w : Value α) (e : MatrixError) :
    apply tolerance op v w ≠ .error (.refused e) := by
  intro hrefused
  by_cases hop : op = .assign
  · subst hop
    cases hrefused
  · have hcases : (∃ x, apply tolerance op v w = .ok x) ∨
        ∃ f, apply tolerance op v w = .error f ∧ f ≠ .refused e :=
      apply_cases (by simp) (by simp) (by simp) hop v w
    rcases hcases with ⟨x, hx⟩ | ⟨f, hf, hne⟩
    · rw [hrefused] at hx
      cases hx
    · rw [hrefused] at hf
      exact hne (Except.error.inj hf).symm

end

/-- **An arithmetic operator has a value or fails as expected**; assignment is none. -/
theorem apply_expected (c : Context) {op : Operator} (hop : op ≠ .assign) (v w : Value Float) :
    (∃ x, apply c.zeroTolerance op v w = .ok x) ∨
      ∃ e, apply c.zeroTolerance op v w = .error e ∧ e.Expected c.zeroTolerance := by
  refine apply_cases (fun l r => .eval (.dimensions l r)) (.eval .singularDivisor) (fun n g hzero => ?_) hop v w
  refine .division (c.le_or_isNaN.resolve_left fun hle => ?_)
  obtain ⟨found, hfound⟩ := Grid.inverse?_ok_of_guards (Numeric.guards_of_le hle) g
  rw [hzero] at hfound
  cases hfound

end Value

/-! ### What an evaluation ensures -/

namespace Eval

variable {α β : Type} {Q : α → Prop} {R : β → Prop} {E : Failure → Prop}

/-- From wherever it starts, an evaluation gives a result with `Q` or fails with `E`. -/
def Ensures (m : Eval α) (Q : α → Prop) (E : Failure → Prop) : Prop :=
  ∀ p : Progress, (∃ a, (m.run p).1 = .ok a ∧ Q a) ∨ ∃ e, (m.run p).1 = .error e ∧ E e

theorem Ensures.pure {a : α} (h : Q a) : Ensures (Pure.pure a) Q E := fun _ => .inl ⟨a, rfl, h⟩

theorem Ensures.throw {e : Failure} (h : E e) : Ensures (MonadExcept.throw e : Eval α) Q E :=
  fun _ => .inr ⟨e, rfl, h⟩

/-- Two evaluations in a row. -/
theorem Ensures.bind {m : Eval α} {f : α → Eval β} (hm : Ensures m Q E)
    (hf : ∀ a, Q a → Ensures (f a) R E) : Ensures (m >>= f) R E := by
  intro p
  rw [run_bind]
  rcases hrun : m.run p with ⟨e | a, q⟩
  · rcases hm p with ⟨a, ha, -⟩ | ⟨e', he, hE⟩
    · rw [hrun] at ha
      cases ha
    · rw [hrun] at he
      cases he
      exact .inr ⟨e, rfl, hE⟩
  · rcases hm p with ⟨a', ha, hQ⟩ | ⟨e, he, -⟩
    · rw [hrun] at ha
      cases ha
      exact hf a hQ q
    · rw [hrun] at he
      cases he

variable {c : Context}

/-- Looking up fails for a variable without a value only. -/
theorem ensures_resolve (o : Operand) :
    Ensures (resolve o) (fun _ => True) (Failure.Expected c.zeroTolerance) := by
  cases o with
  | value v => exact .pure trivial
  | reference name =>
      intro p
      rw [run_resolve_reference]
      cases p.env.get? name with
      | some v => exact .inl ⟨v, rfl, trivial⟩
      | none => exact .inr ⟨_, rfl, .eval (.unbound name)⟩

/-- A cell that is a number is taken as it is, one that is a matrix is refused. -/
theorem ensures_cell (v : Value Float) :
    Ensures (cell v) (fun _ => True) (Failure.Expected c.zeroTolerance) := by
  cases v with
  | scalar x => exact .pure trivial
  | matrix a => exact .throw (.eval .nestedMatrices)

theorem ensures_ofExcept {r : Except Failure α}
    (h : (∃ a, r = .ok a) ∨ ∃ e, r = .error e ∧ E e) : Ensures (ofExcept r) (fun _ => True) E := by
  rcases h with ⟨a, rfl⟩ | ⟨e, rfl, he⟩
  · exact .pure trivial
  · exact .throw he

theorem ensures_bind (name : String) (v : Value Float) : Ensures (bind name v) (fun _ => True) E :=
  fun _ => .inl ⟨(), rfl, trivial⟩

/-- An assignment does not fail. -/
theorem ensures_assign (line : Int) (name : String) (v : Value Float) :
    Ensures (assign line name v) (fun _ => True) E :=
  (ensures_bind name v).bind fun _ _ _ => .inl ⟨(), rfl, trivial⟩

end Eval

/-! ### Literals -/

theorem DenseMatrix.exists_mapM_rowOfLength? {α : Type} {n : Nat} {rows : List (List α)}
    (h : ∀ row ∈ rows, row.length = n) : ∃ vs, rows.mapM (rowOfLength? n) = .ok vs := by
  induction rows with
  | nil => exact ⟨[], rfl⟩
  | cons row rows ih =>
      have hlength : row.length = n := h row (by simp)
      have hrow : rowOfLength? n row = .ok ⟨row.toArray, by simpa using hlength⟩ := dif_pos hlength
      obtain ⟨vs, hvs⟩ := ih fun r hr => h r (by simp [hr])
      exact ⟨_, by rw [List.mapM_cons, hrow, hvs]; rfl⟩

/-- Rows of the same length are a matrix. -/
theorem DenseMatrix.ofRows_of_length {α : Type} {rows : List (List α)} {n : Nat}
    (h : ∀ row ∈ rows, row.length = n) : ∃ a, ofRows rows = .ok a := by
  cases rows with
  | nil => exact ⟨empty, rfl⟩
  | cons row rows =>
      have hfirst : row.length = n := h row (by simp)
      obtain ⟨vs, hvs⟩ := exists_mapM_rowOfLength? h
      rw [ofRows, hfirst, hvs]
      exact ⟨ofVectors vs, rfl⟩

namespace Eval

variable {c : Context} {E : Failure → Prop}

theorem ensures_literal {rows : List (List Float)} {n : Nat} (h : ∀ row ∈ rows, row.length = n) :
    Ensures (literal rows) (fun _ => True) E := by
  unfold literal
  split
  · exact .pure trivial
  · obtain ⟨a, ha⟩ := DenseMatrix.ofRows_of_length h
    exact ensures_ofExcept (.inl ⟨.matrix a, by rw [ha]; rfl⟩)

/-- A row that is as long as the first one is not refused. -/
theorem ensures_checkWidth {first : Option Nat} {n : Nat} (h : first.getD n = n) :
    Ensures (checkWidth first n) (fun _ => True) E := by
  cases first with
  | none => exact .pure trivial
  | some m =>
      have hm : n = m := h.symm
      rw [checkWidth, if_pos hm]
      exact .pure trivial

end Eval

/-! ### Trees -/

namespace ExprTree

open Eval

variable {c : Context} {E : Failure → Prop}

theorem ensures_evaluateCells {ts : List ExprTree}
    (h : ∀ t ∈ ts, Ensures (t.evaluate c) (fun _ => True) (Failure.Expected c.zeroTolerance)) :
    Ensures (evaluateCells c ts) (fun xs => xs.length = ts.length)
      (Failure.Expected c.zeroTolerance) := by
  induction ts with
  | nil =>
      rw [evaluateCells]
      exact .pure rfl
  | cons t ts ih =>
      rw [evaluateCells]
      refine (h t (by simp)).bind fun o _ => (ensures_resolve o).bind fun v _ =>
        (ensures_cell v).bind fun x _ => (ih fun t ht => h t (by simp [ht])).bind fun xs hxs => ?_
      exact .pure (by rw [List.length_cons, List.length_cons, hxs])

theorem ensures_evaluateRows {n : Nat} {rows : List (List ExprTree)} {first : Option Nat}
    (hn : ∀ row ∈ rows, row.length = n) (hfirst : first.getD n = n)
    (h : ∀ row ∈ rows, ∀ t ∈ row,
      Ensures (t.evaluate c) (fun _ => True) (Failure.Expected c.zeroTolerance)) :
    Ensures (evaluateRows c first rows) (fun xss => ∀ xs ∈ xss, xs.length = n)
      (Failure.Expected c.zeroTolerance) := by
  induction rows generalizing first with
  | nil =>
      rw [evaluateRows]
      exact .pure (by simp)
  | cons row rows ih =>
      rw [evaluateRows]
      refine (ensures_evaluateCells (h row (by simp))).bind fun xs hxs => ?_
      have hwidth : xs.length = n := hxs.trans (hn row (by simp))
      rw [hwidth]
      refine (ensures_checkWidth hfirst).bind fun _ _ => ?_
      -- the rows behind are checked against the width of the first row, which is the same
      refine (ih (fun r hr => hn r (by simp [hr])) (by simp [hfirst])
        fun r hr => h r (by simp [hr])).bind fun xss hxss => ?_
      refine .pure fun ys hys => ?_
      rcases List.mem_cons.1 hys with rfl | hys
      · exact hwidth
      · exact hxss ys hys

/-- **A tree with rectangular literals fails as expected only.** -/
theorem Rectangular.ensures_evaluate {t : ExprTree} (ht : t.Rectangular) :
    Ensures (t.evaluate c) (fun _ => True) (Failure.Expected c.zeroTolerance) := by
  induction ht with
  | number l x | name l n =>
      rw [evaluate]
      exact .pure trivial
  | @literal l rows shape _ ih =>
      obtain ⟨n, hn⟩ : ∃ n, ∀ row ∈ rows, row.length = n := by
        rcases shape with rfl | ⟨n, -, hn⟩
        · exact ⟨0, by simp⟩
        · exact ⟨n, hn⟩
      rw [evaluate]
      refine (ensures_evaluateRows hn rfl ih).bind fun xss hxss => ?_
      exact (ensures_literal hxss).bind fun v _ => .pure trivial
  | @node l op left right _ _ ihl ihr =>
      rw [evaluate]
      refine ihl.bind fun o _ => ihr.bind fun o' _ => (ensures_resolve o').bind fun r _ => ?_
      split
      · cases o with
        | reference n => exact (ensures_assign l n r).bind fun _ _ => .pure trivial
        | value v => exact .throw (.eval .assignmentTarget)
      · next hop =>
          refine (ensures_resolve o).bind fun x _ => ?_
          exact (ensures_ofExcept (Value.apply_expected c hop x r)).bind fun v _ => .pure trivial
  | grouped _ ih =>
      rw [evaluate]
      exact ih

end ExprTree

/-! ### Statements -/

/-- Evaluating the expression of an obtained statement is evaluating a tree with rectangular literals. -/
theorem Parse.Obtained.exists_tree {src : String} {s : Statement} (h : Obtained src s) (c : Context) :
    ∃ t : ExprTree, t.Rectangular ∧ Eval.operand c s.expr = t.evaluate c := by
  obtain ⟨finish, start, rest, hs⟩ := h.exists_gives
  obtain ⟨t, ht, hexpr⟩ := exists_tree_of_statement_gives hs
  refine ⟨t, ht, ?_⟩
  rw [← hexpr, Eval.operand_ofItems_postorder]

/-- An obtained statement has a value or fails as expected. -/
theorem Parse.Obtained.evaluate_cases {src : String} {s : Statement} (h : Obtained src s) (c : Context)
    (env : Env (Value Float)) :
    (∃ a, (s.evaluate c env).result = .ok a) ∨
      ∃ e, (s.evaluate c env).result = .error e ∧ e.Expected c.zeroTolerance := by
  obtain ⟨t, ht, hoperand⟩ := h.exists_tree c
  have hanswer : Eval.Ensures (Eval.answer c s) (fun _ => True) (Failure.Expected c.zeroTolerance) := by
    rw [Eval.answer, hoperand]
    refine ht.ensures_evaluate.bind fun o _ => ?_
    cases o with
    | reference name => exact (Eval.ensures_resolve _).bind fun v _ => .pure trivial
    | value v =>
        dsimp only
        split
        · exact (Eval.ensures_bind ansName v).bind fun _ _ => .pure trivial
        · exact .pure trivial
  exact (hanswer ⟨env.push, []⟩).imp (fun ⟨a, ha, _⟩ => ⟨a, ha⟩) id

/-- **With a tolerance of at least zero, an obtained statement has a value, whose cells fill its shape, or
fails with one of five errors.**  So no matrix refuses anything, nothing is divided by zero, and no node is
malformed.  Tolerances that are no numbers are not at least zero. -/
theorem Statement.evaluate_closed {src : String} {s : Statement} (h : Parse.Obtained src s) (c : Context)
    (htolerance : 0 ≤ c.zeroTolerance) (env : Env (Value Float)) :
    (∃ a : Answer, (s.evaluate c env).result = .ok a ∧
      ∀ m, a.value = .matrix m → m.cells.length = m.nrows * m.ncols) ∨
    ∃ e : EvalError, (s.evaluate c env).result = .error (.eval e) ∧ e.Expected := by
  rcases h.evaluate_cases c env with ⟨a, ha⟩ | ⟨e, he, hexpected⟩
  · exact .inl ⟨a, ha, fun m _ => m.length_cells⟩
  · cases hexpected with
    | eval hexpected => exact .inr ⟨_, he, hexpected⟩
    | division hnan =>
        rw [Decimal.isNaN_of_le htolerance] at hnan
        cases hnan

/-- The statement of the text `[x]/y`. -/
theorem Parse.source_cell_divide : source "[x]/y" = .ok
    [⟨.sequence 1 [.matrix 1 [[.name 1 "x"]], .name 1 "y", .operator 1 .divide], true, true, 1⟩] := by
  set_option maxRecDepth 100000 in cbv

/-- The text `[x]/y` in a session in which nothing has been run. -/
theorem Statement.evaluate_closed_cell :
    ∃ s, Parse.Obtained "[x]/y" s ∧ 0 ≤ Context.usual.zeroTolerance ∧
      ((∃ a : Answer, (s.evaluate .usual .empty).result = .ok a ∧
          ∀ m, a.value = .matrix m → m.cells.length = m.nrows * m.ncols) ∨
        ∃ e : EvalError, (s.evaluate .usual .empty).result = .error (.eval e) ∧ e.Expected) := by
  have hsource := Parse.source_cell_divide
  have hobtained : Parse.Obtained "[x]/y" _ := .inl ⟨_, hsource, List.mem_singleton_self _⟩
  have htolerance : 0 ≤ Context.usual.zeroTolerance := by decide
  exact ⟨_, hobtained, htolerance, Statement.evaluate_closed hobtained .usual htolerance .empty⟩

end MatrixCalc
