/-
**Elimination and the LU decomposition.**

Elimination goes through the columns from the left.  In each it looks for a pivot, the first cell at or
below the pivot row that is not negligible, brings its row up by an exchange, and subtracts a multiple
of it from every row below whose cell in the column is not negligible.  A column without a pivot is
skipped and the pivot row stays.  What remains is the upper factor; the multiples, each kept in its row
and in the column of its pivot step, make up the lower factor below a diagonal of ones.  Rows of the
lower factor are exchanged along, as far as they are filled.

Main definitions:

* `MatrixCalc.Elimination` — what elimination has done so far;
* `MatrixCalc.Elimination.findPivot?`, `MatrixCalc.Elimination.swap`,
  `MatrixCalc.Elimination.clear` — the parts of a round;
* `MatrixCalc.Elimination.round`, `MatrixCalc.Elimination.rounds` — one column, several columns;
* `MatrixCalc.LU`, `MatrixCalc.Grid.lu` — the decomposition;
* `MatrixCalc.Grid.diagonalProduct`, `MatrixCalc.Grid.det`, `MatrixCalc.Grid.signedDet` — determinants.
-/

import MatrixCalc.Dense.Numeric
import MatrixCalc.Dense.Permutation

set_option autoImplicit false

namespace MatrixCalc

/-- What elimination of an `m` by `n` grid has done so far. -/
structure Elimination (α : Type) (m n : Nat) where
  /-- The multiples, without the diagonal. -/
  lower : Grid α m m
  /-- What remains of the grid. -/
  upper : Grid α m n
  /-- For each row, which row of the grid it comes from. -/
  order : Vector (Fin m) m
  /-- The number of pivots found, which is the index of the pivot row. -/
  pivots : Nat
  /-- The number of columns skipped. -/
  skipped : Nat
  deriving DecidableEq, Repr

namespace Elimination

variable {α : Type} {m n : Nat}

/-- The column that elimination is at. -/
def column (s : Elimination α m n) : Nat := s.pivots + s.skipped

section

variable [Zero α]

/-- Nothing has been done. -/
def start (g : Grid α m n) : Elimination α m n :=
  ⟨.ofFn fun _ _ => 0, g, Vector.ofFn id, 0, 0⟩

end

/-- The state with the rows `a` and `b` exchanged; `a` is the pivot row, and the lower factor is filled
up to its column. -/
def swap (s : Elimination α m n) (a b : Fin m) : Elimination α m n :=
  { s with
    lower := s.lower.swapSpan a b 0 a
    upper := s.upper.swapRows a b
    order := Vector.ofFn fun i => s.order[Grid.swapIndex a b i] }

/-- The state with a column skipped. -/
def skip (s : Elimination α m n) : Elimination α m n := { s with skipped := s.skipped + 1 }

variable [Numeric α]

/-- The row of the pivot in the column `c`, at or below the row `p`. -/
def findPivot? (tolerance : α) (g : Grid α m n) (p : Nat) (c : Fin n) : Option (Fin m) :=
  (List.finRange m).find? fun r => decide (p ≤ r) && !Numeric.negligible tolerance (g.cell r c)

/-- Whether a row `r` has to be changed to clear the column `c` below the row `p`. -/
def needsClearing (tolerance : α) (g : Grid α m n) (p : Fin m) (c : Fin n) (r : Fin m) : Bool :=
  decide (p < r) && !Numeric.negligible tolerance (g.cell r c)

variable [Sub α] [Mul α] [Div α]

/-- The multiple of the pivot row `p` that clears the cell of the row `r` in the column `c`. -/
def factor (g : Grid α m n) (p : Fin m) (c : Fin n) (r : Fin m) : α := g.cell r c / g.cell p c

/-- The state with the column `c` cleared below the pivot row `p`. -/
def clear (tolerance : α) (s : Elimination α m n) (p : Fin m) (c : Fin n) : Elimination α m n :=
  let needs := needsClearing tolerance s.upper p c
  { s with
    lower := .ofFn fun r j =>
      if needs r = true ∧ j = p then factor s.upper p c r else s.lower.cell r j
    upper := .ofFn fun r j =>
      if needs r then s.upper.cell r j - s.upper.cell p j * factor s.upper p c r
      else s.upper.cell r j
    pivots := s.pivots + 1 }

/-- Clears the column `c` below the pivot row `p`, where some row needs it only if the pivot divides. -/
def clear? (tolerance : α) (s : Elimination α m n) (p : Fin m) (c : Fin n) :
    Except ZeroDivision (Elimination α m n) :=
  if (List.finRange m).any (needsClearing tolerance s.upper p c) &&
      !Numeric.isDivisor (s.upper.cell p c) then
    .error .zeroDivision
  else .ok (s.clear tolerance p c)

/-- Deals with the column that elimination is at, unless rows or columns have come to an end. -/
def round (tolerance : α) (s : Elimination α m n) : Except ZeroDivision (Elimination α m n) :=
  if hp : s.pivots < m then
    if hc : s.column < n then
      match findPivot? tolerance s.upper s.pivots ⟨s.column, hc⟩ with
      | none => .ok s.skip
      | some r => (s.swap ⟨s.pivots, hp⟩ r).clear? tolerance ⟨s.pivots, hp⟩ ⟨s.column, hc⟩
    else .ok s
  else .ok s

/-- Deals with so many columns. -/
def rounds (tolerance : α) : Nat → Elimination α m n → Except ZeroDivision (Elimination α m n)
  | 0, s => .ok s
  | k + 1, s => (s.round tolerance).bind (rounds tolerance k)

end Elimination

/-- An LU decomposition of an `m` by `n` grid: the product of the factors is the grid with its rows in
the order given. -/
structure LU (α : Type) (m n : Nat) where
  /-- The lower factor, with a diagonal of ones. -/
  lower : Grid α m m
  /-- The upper factor, the echelon form. -/
  upper : Grid α m n
  /-- For each row, which row of the grid it comes from. -/
  order : Vector (Fin m) m
  rank : Nat
  deriving DecidableEq, Repr

/-- The decomposition that elimination has come to. -/
def Elimination.result {α : Type} [One α] {m n : Nat} (s : Elimination α m n) : LU α m n where
  lower := .ofFn fun i j => if i = j then 1 else s.lower.cell i j
  upper := s.upper
  order := s.order
  rank := min m (n - s.skipped)

namespace Grid

variable {α : Type} [Zero α] [One α] [Sub α] [Mul α] [Div α] [Numeric α] {m n : Nat}

/-- The LU decomposition with exchanges of rows, where magnitudes up to the tolerance count as zero. -/
def lu (tolerance : α) (g : Grid α m n) : Except ZeroDivision (LU α m n) :=
  (Elimination.rounds tolerance n (.start g)).map Elimination.result

/-- The product of the diagonal of a square grid, from the top, times `x`. -/
def diagonalProduct (x : α) (g : Grid α n n) : α := Fin.foldl n (fun product i => product * g.cell i i) x

/-- The product of the diagonal of the echelon form: the determinant but for the sign of the exchanges. -/
def det (tolerance : α) (g : Grid α n n) : Except ZeroDivision α :=
  (g.lu tolerance).map fun d => d.upper.diagonalProduct 1

/-- The determinant. -/
def signedDet [Neg α] (tolerance : α) (g : Grid α n n) : Except ZeroDivision α :=
  (g.lu tolerance).map fun d => d.upper.diagonalProduct (Permutation.sign α d.order)

end Grid

end MatrixCalc
