/-
**Values do not depend on the lines of expressions.**

The lines of an expression go into the list of the assignments that were carried out, and nowhere else.  So an
expression some lines further down has the same value or fails in the same way, and leaves the same bindings.

Main definitions:

* `MatrixCalc.Assignment.down`, `MatrixCalc.Progress.down` — assignments further down;
* `MatrixCalc.Eval.Moves` — one evaluation does what another one does, further down.

Main results:

* `MatrixCalc.Eval.moves_operand` — expressions further down are evaluated to the same;
* `MatrixCalc.Statement.evaluate_down` — **statements further down give the same**.
-/

import MatrixCalc.Proofs.Evaluation.Tree
import MatrixCalc.Proofs.Parse.Lines

set_option autoImplicit false

namespace MatrixCalc

variable {b : Nat}

/-- The assignment `b` lines further down. -/
def Assignment.down (b : Nat) (a : Assignment) : Assignment := ⟨a.line + b, a.name⟩

/-- What evaluation has come to, `b` lines further down. -/
def Progress.down (b : Nat) (p : Progress) : Progress := ⟨p.env, p.assigned.map (Assignment.down b)⟩

namespace Eval

variable {α β : Type}

/-- The second evaluation does what the first one does, `b` lines further down. -/
def Moves (b : Nat) (m m' : Eval α) : Prop :=
  ∀ p : Progress, m'.run (p.down b) = ((m.run p).1, (m.run p).2.down b)

theorem Moves.pure (a : α) : Moves b (Pure.pure a) (Pure.pure a) := fun _ => rfl

theorem Moves.throw (e : Failure) :
    Moves b (MonadExcept.throw e : Eval α) (MonadExcept.throw e) := fun _ => rfl

theorem Moves.bind {m m' : Eval α} {f f' : α → Eval β} (hm : Moves b m m') (hf : ∀ a, Moves b (f a) (f' a)) :
    Moves b (m >>= f) (m' >>= f') := by
  intro p
  rw [run_bind, run_bind, hm p]
  rcases m.run p with ⟨e | a, q⟩
  · rfl
  · exact hf a q

theorem moves_ofExcept (r : Except Failure α) : Moves b (ofExcept r) (ofExcept r) := by
  cases r with
  | ok a => exact .pure a
  | error e => exact .throw e

theorem moves_resolve (o : Operand) : Moves b (resolve o) (resolve o) := by
  cases o with
  | value v => exact .pure v
  | reference name =>
      intro p
      rw [run_resolve_reference, run_resolve_reference, Progress.down]
      cases p.env.get? name <;> rfl

theorem moves_bind (name : String) (v : Value Float) : Moves b (bind name v) (bind name v) := fun _ => rfl

theorem moves_assign (line : Int) (name : String) (v : Value Float) :
    Moves b (assign line name v) (assign (line + b) name v) := fun _ => rfl

theorem moves_binary (c : Context) (line : Int) (op : Operator) (o o' : Operand) :
    Moves b (binary c line op o o') (binary c (line + b) op o o') := by
  rw [binary_eq, binary_eq]
  refine (moves_resolve o').bind fun r => ?_
  split
  · cases o with
    | reference n => exact (moves_assign line n r).bind fun _ => .pure _
    | value v => exact .throw _
  · exact (moves_resolve o).bind fun x => (moves_ofExcept _).bind fun v => .pure _

theorem moves_operator (c : Context) (line : Int) (op : Operator) (stack : List Operand) :
    Moves b (operator c line op stack) (operator c (line + b) op stack) := by
  rcases stack with _ | ⟨o', _ | ⟨o, stack⟩⟩
  · exact .throw _
  · exact .throw _
  · exact (moves_binary c line op o o').bind fun v => .pure _

theorem moves_single (stack : List Operand) : Moves b (single stack) (single stack) := by
  obtain ⟨r, hr⟩ := exists_single_eq stack
  exact hr ▸ moves_ofExcept r

theorem moves_cell (v : Value Float) : Moves b (cell v) (cell v) := by
  obtain ⟨r, hr⟩ := exists_cell_eq v
  exact hr ▸ moves_ofExcept r

theorem moves_checkWidth (first : Option Nat) (n : Nat) :
    Moves b (checkWidth first n) (checkWidth first n) := by
  obtain ⟨r, hr⟩ := exists_checkWidth_eq first n
  exact hr ▸ moves_ofExcept r

theorem moves_literal (rows : List (List Float)) : Moves b (literal rows) (literal rows) := by
  obtain ⟨r, hr⟩ := exists_literal_eq rows
  exact hr ▸ moves_ofExcept r

mutual

/-- **Expressions further down are evaluated to the same.** -/
theorem moves_operand (c : Context) : ∀ e : Expr, Moves b (operand c e) (operand c (e.down b))
  | .number _ _ | .name _ _ => by
      rw [Expr.down, operand, operand]
      exact .pure _
  | .matrix _ rs => by
      rw [Expr.down, operand, operand]
      exact (moves_rows c none rs).bind fun xss => (moves_literal xss).bind fun v => .pure _
  | .sequence _ es => by
      rw [Expr.down, operand, operand]
      exact moves_items c es []
  | .operator _ _ => by
      rw [Expr.down, operand, operand]
      exact .throw _
  | .vacant => by
      rw [Expr.down, operand]
      exact .throw _

theorem moves_items (c : Context) : ∀ (es : List Expr) (stack : List Operand),
    Moves b (items c stack es) (items c stack (Expr.downAll b es))
  | [], stack => by
      rw [Expr.downAll, items]
      exact moves_single stack
  | e :: es, stack => by
      rw [Expr.downAll]
      by_cases he : ∃ l op, e = .operator l op
      · obtain ⟨l, op, rfl⟩ := he
        rw [Expr.down, items, items]
        exact (moves_operator c l op stack).bind fun stack' => moves_items c es stack'
      · have he' : ∀ l op, e ≠ .operator l op := fun l op h => he ⟨l, op, h⟩
        have hdown : ∀ l op, e.down b ≠ .operator l op := by
          intro l op h
          cases e with
          | operator l' op' => exact he' l' op' rfl
          | _ => simp [Expr.down] at h
        rw [items_operand c stack es he', items_operand c stack _ hdown]
        exact (moves_operand c e).bind fun o => moves_items c es (o :: stack)

theorem moves_rows (c : Context) : ∀ (first : Option Nat) (rs : List (List Expr)),
    Moves b (rows c first rs) (rows c first (Expr.downRows b rs))
  | _, [] => by
      rw [Expr.downRows, rows]
      exact .pure _
  | first, row :: rs => by
      rw [Expr.downRows, rows, rows]
      exact (moves_cells c row).bind fun xs => (moves_checkWidth first xs.length).bind fun _ =>
        (moves_rows c _ rs).bind fun xss => .pure _

theorem moves_cells (c : Context) : ∀ es : List Expr, Moves b (cells c es) (cells c (Expr.downAll b es))
  | [] => by
      rw [Expr.downAll, cells]
      exact .pure _
  | e :: es => by
      rw [Expr.downAll, cells, cells]
      exact (moves_operand c e).bind fun o => (moves_resolve o).bind fun v =>
        (moves_cell v).bind fun x => (moves_cells c es).bind fun xs => .pure _

end

theorem moves_answer (c : Context) (s : Statement) : Moves b (answer c s) (answer c (s.down b)) := by
  obtain ⟨e, stores, prints, line⟩ := s
  refine (moves_operand c e).bind fun o => ?_
  cases o with
  | reference name => exact (moves_resolve _).bind fun v => .pure _
  | value v =>
      cases stores with
      | true => exact (moves_bind ansName v).bind fun _ => .pure _
      | false => exact .pure _

end Eval

/-- **Statements further down give the same**: their assignments are further down. -/
theorem Statement.evaluate_down (c : Context) (s : Statement) (env : Env (Value Float)) :
    (s.down b).evaluate c env = { s.evaluate c env with
      assigned := (s.evaluate c env).assigned.map (Assignment.down b) } := by
  have hmoves : (Eval.answer c (s.down b)).run ⟨env.push, []⟩ =
      (((Eval.answer c s).run ⟨env.push, []⟩).1, ((Eval.answer c s).run ⟨env.push, []⟩).2.down b) :=
    Eval.moves_answer c s ⟨env.push, []⟩
  simp only [evaluate, hmoves, Progress.down, List.map_reverse]

end MatrixCalc
