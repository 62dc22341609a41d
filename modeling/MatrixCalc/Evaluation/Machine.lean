/-
**Evaluating expressions.**

A sequence of operands and operators is run with a stack of operands.  A name is put on the stack as it
is, and looked up only when its value is needed; so the left side of an assignment may be a name without
a value.  An operator first looks up its right operand, then, unless it is an assignment, its left one.
An assignment leaves the name on the stack.  Cells of a matrix literal are evaluated row by row, and each
must be a number; a literal of one cell is that number.

What was assigned before a failure remains assigned: it is for the statement to take it back.

Main definitions:

* `MatrixCalc.Operand` — what stands on the stack;
* `MatrixCalc.Progress`, `MatrixCalc.Eval` — the environment and the assignments so far, and what
  evaluation makes of them;
* `MatrixCalc.Eval.resolve`, `MatrixCalc.Eval.assign` — looking up and assigning;
* `MatrixCalc.Eval.operand`, `MatrixCalc.Eval.items`, `MatrixCalc.Eval.rows` — evaluating expressions,
  sequences and literals;
* `MatrixCalc.Expr.evaluate` — the value of an expression.
-/

import MatrixCalc.Evaluation.Context
import MatrixCalc.Scope.Env
import MatrixCalc.Value

set_option autoImplicit false

namespace MatrixCalc

/-- What stands on the stack: a name that is not looked up, or a value. -/
inductive Operand where
  | reference (name : String)
  | value (v : Value Float)

/-- An assignment that was carried out: the line of its operator, and the name. -/
structure Assignment where
  /-- The line of the operator. -/
  line : Int
  name : String
  deriving DecidableEq, Repr

/-- What evaluation has come to. -/
structure Progress where
  env : Env (Value Float)
  /-- The assignments that were carried out, the last one first. -/
  assigned : List Assignment

/-- An evaluation: it changes the progress, and gives a result or fails. -/
abbrev Eval (α : Type) : Type := ExceptT Failure (StateM Progress) α

namespace Eval

/-- Fails because the statement is wrong. -/
def fail {α : Type} (e : EvalError) : Eval α := throw (.eval e)

/-- The result, or the failure. -/
def ofExcept {α : Type} : Except Failure α → Eval α
  | .ok a => pure a
  | .error e => throw e

/-- The value of an operand. -/
def resolve : Operand → Eval (Value Float)
  | .value v => pure v
  | .reference name => do
      match (← get).env.get? name with
      | some v => pure v
      | none => fail (.unbound name)

/-- Binds a name. -/
def bind (name : String) (v : Value Float) : Eval Unit :=
  modify fun p => { p with env := p.env.set name v }

/-- Carries out an assignment. -/
def assign (line : Int) (name : String) (v : Value Float) : Eval Unit := do
  bind name v
  modify fun p => { p with assigned := ⟨line, name⟩ :: p.assigned }

/-- The operand that an operator leaves in place of its two operands. -/
def binary (c : Context) (line : Int) (op : Operator) (left right : Operand) : Eval Operand := do
  let r ← resolve right
  match op, left with
  | .assign, .reference name => do
      assign line name r
      pure (.reference name)
  | .assign, .value _ => fail .assignmentTarget
  | op, left => do
      let l ← resolve left
      let v ← ofExcept (Value.apply c.zeroTolerance op l r)
      pure (.value v)

/-- The stack behind an operator. -/
def operator (c : Context) (line : Int) (op : Operator) : List Operand → Eval (List Operand)
  | right :: left :: stack => do
      let o ← binary c line op left right
      pure (o :: stack)
  | _ => fail (.invalidExpression ("operator '" ++ op.symbol ++ "' needs two operands"))

/-- The operand that is left on the stack, which must be the only one. -/
def single : List Operand → Eval Operand
  | [o] => pure o
  | stack =>
      fail (.invalidExpression
        ("expression left " ++ toString stack.length ++ " values instead of one"))

/-- The number that a cell must be. -/
def cell : Value Float → Eval Float
  | .scalar x => pure x
  | .matrix _ => fail .nestedMatrices

/-- Refuses a row of `found` cells if the first row has another number of them. -/
def checkWidth (first : Option Nat) (found : Nat) : Eval Unit :=
  match first with
  | none => pure ()
  | some n => if found = n then pure () else fail (.inconsistentWidth n found)

/-- The value of a matrix literal: of one cell, the number in it. -/
def literal : List (List Float) → Eval (Value Float)
  | [[x]] => pure (.scalar x)
  | rows => ofExcept (((DenseMatrix.ofRows rows).map .matrix).mapError .eval)

mutual

/-- Evaluates an expression to an operand. -/
def operand (c : Context) : Expr → Eval Operand
  | .number _ x => pure (.value (.scalar x))
  | .name _ name => pure (.reference name)
  | .matrix _ rs => do
      let xss ← rows c none rs
      let v ← literal xss
      pure (.value v)
  | .sequence _ es => items c [] es
  | .operator _ op => fail (.invalidExpression ("operator '" ++ op.symbol ++ "' has no operands"))
  | .vacant => throw (.malformed .unknownNode)

/-- Runs the items of a sequence on a stack, to the operand that they leave. -/
def items (c : Context) (stack : List Operand) : List Expr → Eval Operand
  | [] => single stack
  | .operator line op :: es => do
      let stack ← operator c line op stack
      items c stack es
  | e :: es => do
      let o ← operand c e
      items c (o :: stack) es

/-- Evaluates the rows of a matrix literal; `first` is the number of cells of the first row, if that
has been evaluated. -/
def rows (c : Context) (first : Option Nat) : List (List Expr) → Eval (List (List Float))
  | [] => pure []
  | row :: rs => do
      let xs ← cells c row
      checkWidth first xs.length
      let xss ← rows c (some (first.getD xs.length)) rs
      pure (xs :: xss)

/-- Evaluates the cells of a row. -/
def cells (c : Context) : List Expr → Eval (List Float)
  | [] => pure []
  | e :: es => do
      let o ← operand c e
      let v ← resolve o
      let x ← cell v
      let xs ← cells c es
      pure (x :: xs)

end

/-- The value of an expression. -/
def value (c : Context) (e : Expr) : Eval (Value Float) := do
  let o ← operand c e
  resolve o

end Eval

/-- The value of an expression in an environment, and the environment behind it. -/
def Expr.evaluate (c : Context) (e : Expr) (env : Env (Value Float)) :
    Except Failure (Value Float) × Env (Value Float) :=
  let r := (Eval.value c e).run ⟨env, []⟩
  (r.1, r.2.env)

end MatrixCalc
