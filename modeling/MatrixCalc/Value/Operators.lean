/-
**Operators of matrices and numbers.**

Matrices and numbers can be combined directly, outside of a statement.  Then shapes that do not fit are
refused in terms of the matrices, a divisor is inverted exactly and may have any shape that the product
allows, and dividing a number by zero is refused as well.

Main definitions:

* `MatrixCalc.DenseMatrix.div` — the quotient of two matrices;
* `MatrixCalc.Value.direct` — an operator on matrices and numbers;
* `MatrixCalc.Value.equal` — whether two of them are equal.
-/

import MatrixCalc.Value

set_option autoImplicit false

namespace MatrixCalc

namespace DenseMatrix

variable {α : Type}

/-- The product of a matrix with the inverse of another. -/
def div [Zero α] [One α] [Add α] [Sub α] [Mul α] [Div α] [Numeric α] (a b : DenseMatrix α) :
    Except MatrixError (DenseMatrix α) :=
  match b.inverse? 0 with
  | .error e => .error (.division e)
  | .ok none => .error .singular
  | .ok (some i) => a.mul i

end DenseMatrix

namespace Value

variable {α : Type}

/-- An arithmetic operator on matrices and numbers; assignment is none. -/
inductive Arithmetic where
  | add
  | sub
  | mul
  | div
  deriving DecidableEq, Repr

variable [Zero α] [One α] [Add α] [Sub α] [Mul α] [Div α] [Neg α] [Numeric α]

/-- An operator on two matrices. -/
def Arithmetic.onMatrices : Arithmetic → DenseMatrix α → DenseMatrix α →
    Except MatrixError (DenseMatrix α)
  | add => DenseMatrix.add
  | sub => DenseMatrix.sub
  | mul => DenseMatrix.mul
  | div => DenseMatrix.div

/-- An operator on two numbers. -/
def Arithmetic.onScalars : Arithmetic → α → α → Except MatrixError α
  | add, x, y => .ok (x + y)
  | sub, x, y => .ok (x - y)
  | mul, x, y => .ok (x * y)
  | div, x, y => if Numeric.isDivisor y then .ok (x / y) else .error (.division .zeroDivision)

/-- An operator on a number and a matrix, cell by cell. -/
def Arithmetic.onLeftScalar (x : α) (b : DenseMatrix α) : Arithmetic → DenseMatrix α
  | add => b.map (· + x)
  | sub => b.subFrom x
  | mul => b.map (· * x)
  | div => b.map (x / ·)

/-- An operator on a matrix and a number, cell by cell. -/
def Arithmetic.onRightScalar (a : DenseMatrix α) (y : α) : Arithmetic → DenseMatrix α
  | add => a.map (· + y)
  | sub => a.map (· - y)
  | mul => a.map (· * y)
  | div => a.map (· / y)

/-- An operator on matrices and numbers. -/
def direct (op : Arithmetic) : Value α → Value α → Except MatrixError (Value α)
  | scalar x, scalar y => (op.onScalars x y).map .scalar
  | scalar x, matrix b => .ok (.matrix (op.onLeftScalar x b))
  | matrix a, scalar y => .ok (.matrix (op.onRightScalar a y))
  | matrix a, matrix b => (op.onMatrices a b).map .matrix

omit [Zero α] [One α] [Add α] [Sub α] [Mul α] [Div α] [Neg α] [Numeric α] in
/-- Whether two matrices or two numbers are equal; a matrix never equals a number. -/
def equal [BEq α] : Value α → Value α → Bool
  | scalar x, scalar y => x == y
  | matrix a, matrix b => a == b
  | _, _ => false

end Value

end MatrixCalc
