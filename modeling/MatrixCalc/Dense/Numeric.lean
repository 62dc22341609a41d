/-
**The arithmetic that elimination needs.**

Elimination adds, subtracts, multiplies and divides cells, and compares magnitudes with a tolerance.
It is stated over any type of cells with these operations.  Nothing is assumed about them, so it can be
run on doubles and be reasoned about over exact numbers.

Division is meant to be used only where the divisor allows it; elimination asks before it divides, and
ends with a `MatrixCalc.ZeroDivision` where the answer is no.

Main definitions:

* `MatrixCalc.Numeric` — magnitudes against a tolerance, and divisors;
* `MatrixCalc.ZeroDivision` — the failure of a division.
-/

set_option autoImplicit false

namespace MatrixCalc

/-- Cells whose magnitude can be compared with a tolerance, and some of which divide others. -/
class Numeric (α : Type) where
  /-- Whether the magnitude of `x` is at most the tolerance, so that `x` counts as zero. -/
  negligible (tolerance x : α) : Bool
  /-- Whether the magnitude of `x` is above the tolerance. -/
  excessive (tolerance x : α) : Bool
  /-- Whether it is allowed to divide by `x`. -/
  isDivisor (x : α) : Bool

/-- A value that is not a number is neither negligible nor excessive, and a tolerance that is not a
number makes every value so.  Zero of either sign is no divisor. -/
instance : Numeric Float where
  negligible tolerance x := decide (x.abs ≤ tolerance)
  excessive tolerance x := decide (tolerance < x.abs)
  isDivisor x := !(x == 0)

/-- A division by zero was needed. -/
inductive ZeroDivision where
  /-- The divisor is zero. -/
  | zeroDivision
  deriving DecidableEq, Repr

/-- What is said about a division by zero. -/
def ZeroDivision.message : ZeroDivision → String
  | zeroDivision => "float division by zero"

end MatrixCalc
