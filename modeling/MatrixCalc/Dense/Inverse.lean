/-
**Inverting matrices.**

The inverse is found by clearing each column above and below its pivot while doing the same to the
identity.  The pivot of a column is the first cell at or below the diagonal that is not negligible; its
row is brought up to the diagonal and divided by it.  Cells that must come out as one or zero are set so,
since a product with a rounded reciprocal may miss one by a little.  A column without a pivot means that
there is no inverse.

Main definitions:

* `MatrixCalc.Inversion` — the grid on its way to the identity, and the identity on its way to the
  inverse;
* `MatrixCalc.Inversion.scale`, `MatrixCalc.Inversion.clear` — the parts of a round;
* `MatrixCalc.Inversion.round`, `MatrixCalc.Inversion.rounds` — one column, several columns;
* `MatrixCalc.Grid.inverse?` — the inverse.
-/

import MatrixCalc.Dense.Elimination

set_option autoImplicit false

namespace MatrixCalc

/-- Two square grids under the same operations on rows. -/
structure Inversion (α : Type) (n : Nat) where
  /-- What the grid has become. -/
  work : Grid α n n
  /-- What the identity has become. -/
  inverse : Grid α n n
  deriving DecidableEq, Repr

namespace Inversion

variable {α : Type} {n : Nat}

/-- Nothing has been done. -/
def start [Zero α] [One α] (g : Grid α n n) : Inversion α n := ⟨g, .identity α n n⟩

/-- The grids with two rows exchanged. -/
def swap (s : Inversion α n) (a b : Fin n) : Inversion α n :=
  ⟨s.work.swapRows a b, s.inverse.swapRows a b⟩

/-- The grid with the row `p` multiplied by `x`. -/
def scaleRow [Mul α] (g : Grid α n n) (p : Fin n) (x : α) : Grid α n n :=
  .ofFn fun i j => if i = p then g.cell i j * x else g.cell i j

/-- The grids with the row `p` divided by its cell on the diagonal, which becomes one. -/
def scale [One α] [Mul α] [Div α] (s : Inversion α n) (p : Fin n) : Inversion α n :=
  let x := 1 / s.work.cell p p
  ⟨(scaleRow s.work p x).set p p 1, scaleRow s.inverse p x⟩

/-- The grid with multiples of the row `p` subtracted from the other rows. -/
def clearRows [Sub α] [Mul α] (g : Grid α n n) (p : Fin n) (multiple : Fin n → α) : Grid α n n :=
  .ofFn fun i j => if i = p then g.cell i j else g.cell i j - g.cell p j * multiple i

/-- The grids with the column `p` cleared, whose cells off the diagonal become zero. -/
def clear [Zero α] [Sub α] [Mul α] (s : Inversion α n) (p : Fin n) : Inversion α n :=
  let multiple i := s.work.cell i p
  ⟨.ofFn fun i j => if i ≠ p ∧ j = p then 0 else (clearRows s.work p multiple).cell i j,
    clearRows s.inverse p multiple⟩

variable [Zero α] [One α] [Sub α] [Mul α] [Div α] [Numeric α]

/-- Deals with the column `p`.  There is no result if it has no pivot. -/
def round (tolerance : α) (p : Fin n) (s : Inversion α n) :
    Except ZeroDivision (Option (Inversion α n)) :=
  match Elimination.findPivot? tolerance s.work p p with
  | none => .ok none
  | some r =>
      let s := s.swap p r
      if Numeric.isDivisor (s.work.cell p p) then .ok (some ((s.scale p).clear p))
      else .error .zeroDivision

/-- Deals with the columns `ps`, as long as each has a pivot. -/
def rounds (tolerance : α) : List (Fin n) → Inversion α n →
    Except ZeroDivision (Option (Inversion α n))
  | [], s => .ok (some s)
  | p :: ps, s => (s.round tolerance p).bind fun
    | none => .ok none
    | some s => rounds tolerance ps s

/-- Whether the last row of the grid is that of the identity, up to the tolerance. -/
def lastRowReduced (tolerance : α) (s : Inversion α n) : Bool :=
  match n, s with
  | 0, _ => false
  | k + 1, s =>
      let last := Fin.last k
      !Numeric.excessive tolerance (s.work.cell last last - 1) &&
        (List.finRange (k + 1)).all fun j =>
          j == last || Numeric.negligible tolerance (s.work.cell last j)

end Inversion

/-- The inverse of a square grid, where magnitudes up to the tolerance count as zero.  The empty grid has
none. -/
def Grid.inverse? {α : Type} [Zero α] [One α] [Sub α] [Mul α] [Div α] [Numeric α] {n : Nat}
    (tolerance : α) (g : Grid α n n) : Except ZeroDivision (Option (Grid α n n)) :=
  (Inversion.rounds tolerance (List.finRange n) (.start g)).map fun found =>
    (found.filter fun s => s.lastRowReduced tolerance).map Inversion.inverse

end MatrixCalc
