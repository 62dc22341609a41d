/-
**Values and their arithmetic.**

A value is a number or a matrix; a matrix of one cell is a matrix still.  The four operations take any
two values: a number and a matrix are combined cell by cell, two matrices must have shapes that fit, and
dividing by a matrix multiplies by its inverse.  Dividing a number by a number never fails.

The shapes of two matrices are looked at twice.  An operation fails because the statement is wrong where
they do not fit, and the matrices that it would combine otherwise look at them again.

Main definitions:

* `MatrixCalc.Value` — the values;
* `MatrixCalc.Value.add`, `MatrixCalc.Value.sub`, `MatrixCalc.Value.mul`, `MatrixCalc.Value.div` — the
  operations;
* `MatrixCalc.Failure` — why there is no value.
-/

import MatrixCalc.Dense.DenseMatrix
import MatrixCalc.Expr

set_option autoImplicit false

namespace MatrixCalc

/-- A number or a matrix. -/
inductive Value (α : Type) where
  | scalar (x : α)
  | matrix (a : DenseMatrix α)

instance {α : Type} [Zero α] : Inhabited (Value α) := ⟨.scalar 0⟩

/-- Why there is no value. -/
inductive Failure where
  /-- The statement is wrong; a session reports this and goes on. -/
  | eval (e : EvalError)
  /-- An inverse needed a division by zero. -/
  | division (e : ZeroDivision)
  /-- A matrix refuses what it is asked for. -/
  | refused (e : MatrixError)
  /-- The expression is malformed. -/
  | malformed (e : Malformed)

/-- What is said about a failure. -/
def Failure.message : Failure → String
  | eval e => e.message
  | division e => e.message
  | refused e => e.message
  | malformed e => e.message

namespace Value

variable {α : Type}

/-- Combines two values: numbers by `f`, a number and a matrix cell by cell by `left` or `right`, and two
matrices by `whole`, once their shapes are found to fit. -/
def combine (f left right : α → α → α) (fits : Shape → Shape → Bool)
    (whole : DenseMatrix α → DenseMatrix α → Except Failure (DenseMatrix α)) :
    Value α → Value α → Except Failure (Value α)
  | scalar x, scalar y => .ok (.scalar (f x y))
  | scalar x, matrix b => .ok (.matrix (b.map (left x)))
  | matrix a, scalar y => .ok (.matrix (a.map fun x => right x y))
  | matrix a, matrix b =>
      if fits a.shape b.shape then (whole a b).map .matrix
      else .error (.eval (.dimensions a.shape b.shape))

/-- The sum of two values. -/
def add [Add α] : Value α → Value α → Except Failure (Value α) :=
  combine (· + ·) (fun x y => y + x) (· + ·) (· == ·) fun a b => (a.add b).mapError .refused

/-- The difference of two values.  A cell is subtracted from a number by adding its negative. -/
def sub [Add α] [Sub α] [Neg α] : Value α → Value α → Except Failure (Value α) :=
  combine (· - ·) (fun x y => -y + x) (· - ·) (· == ·) fun a b => (a.sub b).mapError .refused

/-- The product of two values: of two matrices, rows by columns. -/
def mul [Zero α] [Add α] [Mul α] : Value α → Value α → Except Failure (Value α) :=
  combine (· * ·) (fun x y => y * x) (· * ·) (fun l r => l.cols == r.rows) fun a b =>
    (a.mul b).mapError .refused

/-- The product of a matrix with the inverse of another, where magnitudes up to the tolerance count as
zero. -/
def divMatrix [Zero α] [One α] [Add α] [Sub α] [Mul α] [Div α] [Numeric α] (tolerance : α)
    (a b : DenseMatrix α) : Except Failure (DenseMatrix α) :=
  match b.inverse? tolerance with
  | .error e => .error (.division e)
  | .ok none => .error (.eval .singularDivisor)
  | .ok (some i) => (a.mul i).mapError .refused

/-- The quotient of two values: two matrices must be square and of the same shape. -/
def div [Zero α] [One α] [Add α] [Sub α] [Mul α] [Div α] [Numeric α] (tolerance : α) :
    Value α → Value α → Except Failure (Value α) :=
  combine (· / ·) (· / ·) (· / ·) (fun l r => r.isSquare && l == r) (divMatrix tolerance)

/-- What an arithmetic operator gives for two values; assignment is none. -/
def apply [Zero α] [One α] [Add α] [Sub α] [Mul α] [Div α] [Neg α] [Numeric α] (tolerance : α)
    (op : Operator) (v w : Value α) : Except Failure (Value α) :=
  match op with
  | .add => add v w
  | .subtract => sub v w
  | .multiply => mul v w
  | .divide => div tolerance v w
  | .assign =>
      .error (.eval (.invalidExpression ("'" ++ op.symbol ++ "' is not an arithmetic operator")))

end Value

end MatrixCalc
