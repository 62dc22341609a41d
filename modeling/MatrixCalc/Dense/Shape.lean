/-
**Shapes of matrices.**

Main definitions:

* `MatrixCalc.Shape` — a height and a width;
* `MatrixCalc.Shape.times`, `MatrixCalc.Shape.pair` — the two ways in which messages write a shape.
-/

set_option autoImplicit false

namespace MatrixCalc

/-- The height and the width of a matrix. -/
structure Shape where
  /-- The number of rows. -/
  rows : Nat
  /-- The number of columns. -/
  cols : Nat
  deriving DecidableEq, Repr

namespace Shape

/-- A shape with a cross between its numbers, as results are described. -/
def times (s : Shape) : String := toString s.rows ++ "x" ++ toString s.cols

/-- Two numbers in parentheses, as indices and shapes are written where they are refused. -/
def pairText (a b : Int) : String := "(" ++ toString a ++ ", " ++ toString b ++ ")"

/-- A shape in parentheses. -/
def pair (s : Shape) : String := pairText s.rows s.cols

/-- Whether a matrix of this shape has as many rows as columns. -/
def isSquare (s : Shape) : Bool := s.rows == s.cols

end Shape

end MatrixCalc
