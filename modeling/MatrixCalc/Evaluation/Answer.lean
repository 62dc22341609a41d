/-
**Evaluating statements.**

A statement is evaluated with new bindings in front of the environment.  If it succeeds they are merged
into the environment; if it fails they are dropped, and with them all that was assigned before the
failure.  The value of a statement that is no variable may be stored in `ans`.

Main definitions:

* `MatrixCalc.Answer` — a value and the name that it is shown under;
* `MatrixCalc.Evaluated` — what a statement gives;
* `MatrixCalc.Statement.evaluate` — evaluates a statement.

Main results:

* `MatrixCalc.Statement.env_evaluate_of_error` — a statement that fails changes nothing;
* `MatrixCalc.Statement.outer_evaluate` — a statement changes the innermost bindings only.
-/

import MatrixCalc.Evaluation.Machine

set_option autoImplicit false

namespace MatrixCalc

/-- The name under which the value of a statement is stored. -/
def ansName : String := "ans"

/-- A value and the name that it is shown under: `ans` if it was stored there, the variable if the
statement reads or assigns one, else none. -/
structure Answer where
  name : Option String
  value : Value Float

/-- What a statement gives. -/
structure Evaluated where
  /-- The answer, or why there is none. -/
  result : Except Failure Answer
  /-- The environment behind the statement. -/
  env : Env (Value Float)
  /-- The assignments that were carried out, whether they remain or not. -/
  assigned : List Assignment

/-- The answer of a statement. -/
def Eval.answer (c : Context) (s : Statement) : Eval Answer := do
  let o ← operand c s.expr
  match o with
  | .reference name => do
      let v ← resolve (.reference name)
      pure ⟨some name, v⟩
  | .value v =>
      if s.storesAns then do
        bind ansName v
        pure ⟨some ansName, v⟩
      else pure ⟨none, v⟩

namespace Statement

/-- Evaluates a statement. -/
def evaluate (c : Context) (s : Statement) (env : Env (Value Float)) : Evaluated :=
  let r := (Eval.answer c s).run ⟨env.push, []⟩
  { result := r.1
    env := match r.1 with
      | .ok _ => env.commit r.2.env
      | .error _ => env
    assigned := r.2.assigned.reverse }

/-- A statement that fails changes nothing. -/
theorem env_evaluate_of_error {c : Context} {s : Statement} {env : Env (Value Float)} {e : Failure}
    (h : (s.evaluate c env).result = .error e) : (s.evaluate c env).env = env := by
  simp only [evaluate] at h ⊢
  rw [h]

/-- A statement changes the innermost bindings only. -/
theorem outer_evaluate (c : Context) (s : Statement) (env : Env (Value Float)) :
    (s.evaluate c env).env.outer = env.outer := by
  simp only [evaluate]
  split <;> rfl

end Statement

end MatrixCalc
