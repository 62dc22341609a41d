/-
**Matrices that are nearly equal.**

Two doubles are close if they are equal, or if both are finite and differ by at most the absolute
tolerance or by at most the relative one times the magnitude of either.

Main definitions:

* `MatrixCalc.Tolerances` — a relative and an absolute tolerance;
* `MatrixCalc.Tolerances.close` — whether two doubles are close;
* `MatrixCalc.DenseMatrix.isClose` — whether two matrices are close, cell by cell.
-/

import MatrixCalc.Dense.DenseMatrix

set_option autoImplicit false

namespace MatrixCalc

/-- A relative and an absolute tolerance. -/
structure Tolerances where
  /-- The tolerance as a part of the magnitude. -/
  relative : Float
  /-- The tolerance by itself. -/
  absolute : Float

/-- What is used where nothing is said. -/
def Tolerances.usual : Tolerances := ⟨1e-9, 1e-12⟩

/-- Whether two doubles are close. -/
def Tolerances.close (t : Tolerances) (x y : Float) : Bool :=
  if x == y then true
  else if x.isInf || y.isInf then false
  else
    let d := (y - x).abs
    decide (d ≤ (t.relative * y).abs) || decide (d ≤ (t.relative * x).abs) ||
      decide (d ≤ t.absolute)

/-- Whether a tolerance is negative. -/
def Tolerances.isNegative (t : Tolerances) : Bool :=
  decide (t.relative < 0) || decide (t.absolute < 0)

/-- Whether two matrices are close.  Matrices of different shapes are not, and the tolerances matter
only where cells are compared. -/
def DenseMatrix.isClose (t : Tolerances) (a b : DenseMatrix Float) : Except MatrixError Bool :=
  if a.shape != b.shape then .ok false
  else if a.isEmpty then .ok true
  else if t.isNegative then .error .negativeTolerance
  else .ok ((a.cells.zip b.cells).all fun p => t.close p.1 p.2)

end MatrixCalc
