/-
**Requests that a matrix refuses.**

Main definitions:

* `MatrixCalc.MatrixError` — why a matrix cannot be built, indexed, compared or combined;
* `MatrixCalc.MatrixError.message` — what is said about it.
-/

import MatrixCalc.Dense.Numeric
import MatrixCalc.Dense.Shape

set_option autoImplicit false

namespace MatrixCalc

/-- Why a matrix cannot be built, indexed, compared or combined. -/
inductive MatrixError where
  /-- A height or a width is negative. -/
  | negativeShape (rows cols : Int)
  /-- There are too few or too many cells for the shape. -/
  | cellCount (count : Nat) (shape : Shape)
  /-- There is no cell in that row and column. -/
  | noCell (row col : Int) (shape : Shape)
  /-- There is no cell of that number, counted row by row. -/
  | noCellNumber (number : Int)
  /-- There is no such row. -/
  | noRow
  /-- The columns from `start` up to `stop` are not columns of the matrix. -/
  | noSpan (start stop : Int)
  /-- The shapes of two matrices differ. -/
  | shapes (left right : Shape)
  /-- The first matrix is not as wide as the second is high. -/
  | widthHeight (left right : Shape)
  /-- The divisor has no inverse. -/
  | singular
  /-- A number is divided by zero. -/
  | division (e : ZeroDivision)
  /-- A tolerance is negative. -/
  | negativeTolerance
  deriving DecidableEq, Repr

/-- What is said about a request that a matrix refuses. -/
def MatrixError.message : MatrixError → String
  | negativeShape r c => "Negative matrix shape " ++ Shape.pairText r c
  | cellCount n s => "Buffer of length " ++ toString n ++ " does not fit shape " ++ s.times
  | noCell r c s =>
      "Matrix was indexed out of bounds: " ++ Shape.pairText r c ++ " in " ++ s.times
  | noCellNumber k => "Matrix was indexed out of bounds: " ++ toString k
  | noRow => "Matrix was indexed out of bounds"
  | noSpan start stop =>
      "Column span [" ++ toString start ++ ", " ++ toString stop ++ ") out of bounds"
  | shapes l r =>
      "LHS and RHS matrices shapes do not match (" ++ l.pair ++ " vs " ++ r.pair ++ ")"
  | widthHeight l r =>
      "LHS matrix width must match RHS matrix height (" ++ l.pair ++ " vs " ++ r.pair ++ ")"
  | singular => "RHS matrix is not invertible"
  | division e => e.message
  | negativeTolerance => "tolerances must be non-negative"

end MatrixCalc
