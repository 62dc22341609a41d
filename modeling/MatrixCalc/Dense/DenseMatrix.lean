/-
**Matrices of any shape.**

A matrix is a grid together with its height and its width.  Matrices are built from cells, from rows
or from a shape; cells are read and replaced by row and column or by their number, counted row by row.
What does not fit is refused with a `MatrixCalc.MatrixError`; rows of different lengths, which a matrix
literal may have, are an `MatrixCalc.EvalError`.

Main definitions:

* `MatrixCalc.DenseMatrix` — matrices;
* `MatrixCalc.DenseMatrix.ofCells`, `MatrixCalc.DenseMatrix.ofRows`,
  `MatrixCalc.DenseMatrix.identity`, `MatrixCalc.DenseMatrix.filled`,
  `MatrixCalc.DenseMatrix.permutation` — building;
* `MatrixCalc.DenseMatrix.get`, `MatrixCalc.DenseMatrix.set`, `MatrixCalc.DenseMatrix.swapRows`,
  `MatrixCalc.DenseMatrix.swapSpan` — reading and changing;
* `MatrixCalc.DenseMatrix.map`, `MatrixCalc.DenseMatrix.add`, `MatrixCalc.DenseMatrix.sub`,
  `MatrixCalc.DenseMatrix.mul`, `MatrixCalc.DenseMatrix.inverse?` — arithmetic; two matrices whose shapes
  do not fit are refused.
-/

import MatrixCalc.Dense.Inverse
import MatrixCalc.Dense.MatrixError
import MatrixCalc.EvalError

set_option autoImplicit false

namespace MatrixCalc

/-- A matrix: a grid of some height and width. -/
structure DenseMatrix (α : Type) where
  /-- The number of rows. -/
  nrows : Nat
  /-- The number of columns. -/
  ncols : Nat
  /-- The cells. -/
  grid : Grid α nrows ncols

namespace DenseMatrix

variable {α β γ : Type}

/-! ### Parts of a matrix -/

/-- The height and the width. -/
def shape (a : DenseMatrix α) : Shape := ⟨a.nrows, a.ncols⟩

/-- Whether there is no cell at all. -/
def isEmpty (a : DenseMatrix α) : Bool := a.nrows * a.ncols == 0

/-- The rows. -/
def rows (a : DenseMatrix α) : List (List α) := a.grid.toRows

/-- The cells row by row. -/
def cells (a : DenseMatrix α) : List α := a.grid.toList

/-- The last cell, if there is one. -/
def lastCell? (a : DenseMatrix α) : Option α := a.cells.getLast?

/-- Two matrices are equal if their shapes and their cells are. -/
instance [BEq α] : BEq (DenseMatrix α) where
  beq a b := a.shape == b.shape && a.cells == b.cells

/-! ### Building matrices -/

/-- The matrix without rows and columns. -/
def empty : DenseMatrix α := ⟨0, 0, .ofFn fun i => i.elim0⟩

instance : Inhabited (DenseMatrix α) := ⟨empty⟩

/-- The matrix of the shape `rows` by `cols` that `build` gives, unless one of these is negative. -/
def sized (rows cols : Int) (build : (m n : Nat) → Except MatrixError (Grid α m n)) :
    Except MatrixError (DenseMatrix α) :=
  if rows < 0 ∨ cols < 0 then .error (.negativeShape rows cols)
  else (build rows.toNat cols.toNat).map fun g => ⟨_, _, g⟩

/-- The number of a cell, counted row by row, is below the number of all cells. -/
theorem index_lt {m n : Nat} (i : Fin m) (j : Fin n) : i.val * n + j.val < m * n := by
  have h : i.val * n + n ≤ m * n := by
    rw [← Nat.succ_mul]
    exact Nat.mul_le_mul_right n i.isLt
  omega

/-- The matrix of the given cells, row by row. -/
def ofCells (cs : List α) (rows cols : Int) : Except MatrixError (DenseMatrix α) :=
  sized rows cols fun m n =>
    let v := cs.toArray
    if h : v.size = m * n then
      .ok (.ofFn fun i j =>
        have : i.val * n + j.val < v.size := h ▸ index_lt i j
        v[i.val * n + j.val])
    else .error (.cellCount v.size ⟨m, n⟩)

/-- The matrix of the given rows. -/
def ofVectors {n : Nat} (rows : List (Vector α n)) : DenseMatrix α :=
  ⟨rows.length, n, ⟨rows.toArray, by simp⟩⟩

/-- A row as a vector, unless it has another length. -/
def rowOfLength? (n : Nat) (row : List α) : Except EvalError (Vector α n) :=
  if h : row.length = n then .ok ⟨row.toArray, by simpa using h⟩
  else .error (.inconsistentWidth n row.length)

/-- The matrix of the given rows, all of which must be as long as the first one. -/
def ofRows : List (List α) → Except EvalError (DenseMatrix α)
  | [] => .ok empty
  | row :: rows => ((row :: rows).mapM (rowOfLength? row.length)).map ofVectors

/-- The matrix of ones on the diagonal and zeros elsewhere. -/
def identity [Zero α] [One α] (rows cols : Int) : Except MatrixError (DenseMatrix α) :=
  sized rows cols fun m n => .ok (.identity α m n)

/-- The matrix whose cells are all equal. -/
def filled (x : α) (rows cols : Int) : Except MatrixError (DenseMatrix α) :=
  sized rows cols fun _ _ => .ok (.ofFn fun _ _ => x)

/-- The square matrix with a one in each row, at the given column. -/
def permutation [Zero α] [One α] (cols : List Int) : Except MatrixError (DenseMatrix α) :=
  let n := cols.length
  let outside (p : Int × Nat) : Bool := !(decide (0 ≤ p.1) && decide (p.1 < n))
  match cols.zipIdx.find? outside with
  | some (col, row) => .error (.noCell row col ⟨n, n⟩)
  | none => .ok ⟨n, n, .ofFn fun i j => if (j.val : Int) = cols.get i then 1 else 0⟩

/-! ### Reading and changing cells -/

/-- The index that a number stands for among `n`. -/
def index? (n : Nat) (i : Int) : Option (Fin n) :=
  if h : 0 ≤ i ∧ i.toNat < n then some ⟨i.toNat, h.2⟩ else none

/-- How a cell is named. -/
inductive Index where
  /-- By its row and its column. -/
  | cell (row col : Int)
  /-- By its number, counted row by row. -/
  | number (k : Int)
  deriving DecidableEq, Repr

/-- The row and the column that an index stands for. -/
def locate (a : DenseMatrix α) : Index → Except MatrixError (Fin a.nrows × Fin a.ncols)
  | .cell r c => match index? a.nrows r, index? a.ncols c with
    | some i, some j => .ok (i, j)
    | _, _ => .error (.noCell r c a.shape)
  | .number k =>
      match index? a.nrows (k / a.ncols), index? a.ncols (k % a.ncols) with
      | some i, some j => .ok (i, j)
      | _, _ => .error (.noCellNumber k)

/-- The cell at an index. -/
def get (a : DenseMatrix α) (i : Index) : Except MatrixError α :=
  (a.locate i).map fun p => a.grid.cell p.1 p.2

/-- The matrix with the cell at an index replaced. -/
def set (a : DenseMatrix α) (i : Index) (x : α) : Except MatrixError (DenseMatrix α) :=
  (a.locate i).map fun p => { a with grid := a.grid.set p.1 p.2 x }

/-- Two rows of a matrix. -/
def locateRows (a : DenseMatrix α) (r s : Int) : Except MatrixError (Fin a.nrows × Fin a.nrows) :=
  match index? a.nrows r, index? a.nrows s with
  | some i, some j => .ok (i, j)
  | _, _ => .error .noRow

/-- The matrix with two rows exchanged. -/
def swapRows (a : DenseMatrix α) (r s : Int) : Except MatrixError (DenseMatrix α) :=
  (a.locateRows r s).map fun p => { a with grid := a.grid.swapRows p.1 p.2 }

/-- The matrix with two rows exchanged in the columns from `start` up to, but not including, `stop`. -/
def swapSpan (a : DenseMatrix α) (r s start stop : Int) : Except MatrixError (DenseMatrix α) :=
  (a.locateRows r s).bind fun p =>
    if 0 ≤ start ∧ start ≤ stop ∧ stop ≤ a.ncols then
      .ok { a with grid := a.grid.swapSpan p.1 p.2 start.toNat stop.toNat }
    else .error (.noSpan start stop)

/-! ### Arithmetic -/

/-- The matrix of the values of `f` at the cells. -/
def map (f : α → β) (a : DenseMatrix α) : DenseMatrix β := ⟨a.nrows, a.ncols, a.grid.map f⟩

@[simp] theorem shape_map (f : α → β) (a : DenseMatrix α) : (a.map f).shape = a.shape := rfl

/-- The matrix of the values of `f` at the cells of two matrices, which must have the same shape. -/
def zipWith (f : α → β → γ) (a : DenseMatrix α) (b : DenseMatrix β) :
    Except MatrixError (DenseMatrix γ) :=
  if h : b.nrows = a.nrows ∧ b.ncols = a.ncols then
    .ok ⟨a.nrows, a.ncols, a.grid.zipWith f (b.grid.cast h.1 h.2)⟩
  else .error (.shapes a.shape b.shape)

/-- Two matrices are combined just if they have the same shape. -/
theorem exists_zipWith_iff {f : α → β → γ} {a : DenseMatrix α} {b : DenseMatrix β} :
    (∃ c, a.zipWith f b = .ok c) ↔ a.shape = b.shape := by
  have hshape : a.shape = b.shape ↔ b.nrows = a.nrows ∧ b.ncols = a.ncols := by
    simp [shape, eq_comm]
  rw [hshape]
  by_cases h : b.nrows = a.nrows ∧ b.ncols = a.ncols
  · exact iff_of_true ⟨_, dif_pos h⟩ h
  · refine iff_of_false ?_ h
    rintro ⟨c, hc⟩
    rw [zipWith, dif_neg h] at hc
    cases hc

/-- The sum of two matrices. -/
def add [Add α] (a b : DenseMatrix α) : Except MatrixError (DenseMatrix α) := a.zipWith (· + ·) b

/-- The difference of two matrices. -/
def sub [Sub α] (a b : DenseMatrix α) : Except MatrixError (DenseMatrix α) := a.zipWith (· - ·) b

/-- The product of two matrices, the first of which must be as wide as the second is high. -/
def mul [Zero α] [Add α] [Mul α] (a b : DenseMatrix α) : Except MatrixError (DenseMatrix α) :=
  if h : b.nrows = a.ncols then .ok ⟨a.nrows, b.ncols, a.grid.mul (b.grid.cast h rfl)⟩
  else .error (.widthHeight a.shape b.shape)

/-- Two matrices are multiplied just if the first is as wide as the second is high. -/
theorem exists_mul_iff [Zero α] [Add α] [Mul α] {a b : DenseMatrix α} :
    (∃ c, a.mul b = .ok c) ↔ a.ncols = b.nrows := by
  by_cases h : b.nrows = a.ncols
  · exact iff_of_true ⟨_, dif_pos h⟩ h.symm
  · refine iff_of_false ?_ (Ne.symm h)
    rintro ⟨c, hc⟩
    rw [mul, dif_neg h] at hc
    cases hc

/-- Each cell with its sign changed. -/
def neg [Neg α] (a : DenseMatrix α) : DenseMatrix α := a.map fun x => -x

/-- A number minus each cell: the cell with its sign changed, plus the number. -/
def subFrom [Neg α] [Add α] (x : α) (a : DenseMatrix α) : DenseMatrix α := a.neg.map fun y => y + x

section

variable [Zero α] [One α] [Sub α] [Mul α] [Div α] [Numeric α]

/-- The LU decomposition. -/
def lu (tolerance : α) (a : DenseMatrix α) : Except ZeroDivision (LU α a.nrows a.ncols) :=
  a.grid.lu tolerance

/-- What `f` gives for the grid of a square matrix; other matrices have nothing. -/
def onSquare? (a : DenseMatrix α) (f : (n : Nat) → Grid α n n → Except ZeroDivision β) :
    Except ZeroDivision (Option β) :=
  if h : a.ncols = a.nrows then (f a.nrows (a.grid.cast rfl h)).map some else .ok none

/-- The determinant but for the sign of the exchanges; only a square matrix has one. -/
def det? (tolerance : α) (a : DenseMatrix α) : Except ZeroDivision (Option α) :=
  a.onSquare? fun _ g => g.det tolerance

/-- The determinant; only a square matrix has one. -/
def signedDet? [Neg α] (tolerance : α) (a : DenseMatrix α) : Except ZeroDivision (Option α) :=
  a.onSquare? fun _ g => g.signedDet tolerance

/-- The inverse, if there is one. -/
def inverse? (tolerance : α) (a : DenseMatrix α) : Except ZeroDivision (Option (DenseMatrix α)) :=
  (a.onSquare? fun _ g => (g.inverse? tolerance).map fun found =>
    found.map fun i => (⟨_, _, i⟩ : DenseMatrix α)).map Option.join

end

end DenseMatrix

end MatrixCalc
