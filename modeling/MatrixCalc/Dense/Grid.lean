/-
**Rectangular arrays of cells.**

A grid has `m` rows of `n` cells each, and its type says so.  All operations on matrices are stated on
grids: what an operation does is said cell by cell, and the shapes of its arguments and of its result
are what they must be.

Main definitions:

* `MatrixCalc.Grid` — the arrays;
* `MatrixCalc.Grid.cell`, `MatrixCalc.Grid.ofFn` — a cell of a grid, and the grid of given cells;
* `MatrixCalc.Grid.map`, `MatrixCalc.Grid.zipWith` — operations cell by cell;
* `MatrixCalc.Grid.swapRows`, `MatrixCalc.Grid.swapSpan` — two rows exchanged, or their cells in some
  of the columns;
* `MatrixCalc.Grid.identity`, `MatrixCalc.Grid.mul` — the identity and the product;
* `MatrixCalc.Grid.toRows` — the rows as lists.

Main results:

* `MatrixCalc.Grid.ext_cell` — a grid is determined by its cells;
* a lemma `MatrixCalc.Grid.cell_…` for each operation, which says what its cells are.
-/

set_option autoImplicit false

namespace MatrixCalc

/-- An array of `m` rows of `n` cells each. -/
structure Grid (α : Type) (m n : Nat) where
  /-- The rows, from the top. -/
  rows : Vector (Vector α n) m
  deriving DecidableEq, Repr

namespace Grid

variable {α β γ : Type} {k m n p : Nat}

/-! ### Cells -/

/-- The cell in row `i` and column `j`. -/
def cell (g : Grid α m n) (i : Fin m) (j : Fin n) : α := (g.rows[i])[j]

/-- The grid with given cells. -/
def ofFn (f : Fin m → Fin n → α) : Grid α m n := ⟨Vector.ofFn fun i => Vector.ofFn (f i)⟩

@[simp] theorem cell_ofFn (f : Fin m → Fin n → α) (i : Fin m) (j : Fin n) :
    (ofFn f).cell i j = f i j := by
  simp [cell, ofFn]

/-- A grid is determined by its cells. -/
theorem ext_cell {g h : Grid α m n} (hc : ∀ i j, g.cell i j = h.cell i j) : g = h := by
  obtain ⟨g⟩ := g
  obtain ⟨h⟩ := h
  congr 1
  apply Vector.ext
  intro i hi
  apply Vector.ext
  intro j hj
  exact hc ⟨i, hi⟩ ⟨j, hj⟩

@[simp] theorem ofFn_cell (g : Grid α m n) : ofFn g.cell = g := ext_cell fun i j => by simp

/-- A grid of the same cells, of a height and a width that are equal to its own. -/
def cast {m' n' : Nat} (hm : m = m') (hn : n = n') (g : Grid α m n) : Grid α m' n' :=
  ofFn fun i j => g.cell (i.cast hm.symm) (j.cast hn.symm)

@[simp] theorem cell_cast {m' n' : Nat} (hm : m = m') (hn : n = n') (g : Grid α m n) (i : Fin m')
    (j : Fin n') : (g.cast hm hn).cell i j = g.cell (i.cast hm.symm) (j.cast hn.symm) := by
  simp [cast]

@[simp] theorem cast_rfl (g : Grid α m n) : g.cast rfl rfl = g := ext_cell fun i j => by simp

/-! ### Operations cell by cell -/

/-- The grid of the values of `f` at the cells. -/
def map (f : α → β) (g : Grid α m n) : Grid β m n := ofFn fun i j => f (g.cell i j)

@[simp] theorem cell_map (f : α → β) (g : Grid α m n) (i : Fin m) (j : Fin n) :
    (g.map f).cell i j = f (g.cell i j) := by
  simp [map]

/-- The grid of the values of `f` at the cells of two grids. -/
def zipWith (f : α → β → γ) (g : Grid α m n) (h : Grid β m n) : Grid γ m n :=
  ofFn fun i j => f (g.cell i j) (h.cell i j)

@[simp] theorem cell_zipWith (f : α → β → γ) (g : Grid α m n) (h : Grid β m n) (i : Fin m)
    (j : Fin n) : (g.zipWith f h).cell i j = f (g.cell i j) (h.cell i j) := by
  simp [zipWith]

/-- The grid with one cell replaced. -/
def set (g : Grid α m n) (i : Fin m) (j : Fin n) (x : α) : Grid α m n :=
  ofFn fun r c => if r = i ∧ c = j then x else g.cell r c

@[simp] theorem cell_set (g : Grid α m n) (i r : Fin m) (j c : Fin n) (x : α) :
    (g.set i j x).cell r c = if r = i ∧ c = j then x else g.cell r c := by
  simp [set]

/-! ### Rows in another order -/

/-- The index that takes the place of `i` when `a` and `b` are exchanged. -/
def swapIndex (a b i : Fin m) : Fin m := if i = a then b else if i = b then a else i

@[simp] theorem swapIndex_left (a b : Fin m) : swapIndex a b a = b := by simp [swapIndex]

@[simp] theorem swapIndex_right (a b : Fin m) : swapIndex a b b = a := by
  simp only [swapIndex]
  split
  · assumption
  · simp

theorem swapIndex_of_ne {a b i : Fin m} (ha : i ≠ a) (hb : i ≠ b) : swapIndex a b i = i := by
  simp [swapIndex, ha, hb]

/-- Exchanging twice changes nothing. -/
@[simp] theorem swapIndex_swapIndex (a b i : Fin m) : swapIndex a b (swapIndex a b i) = i := by
  by_cases ha : i = a
  · simp [ha]
  · by_cases hb : i = b
    · simp [hb]
    · simp [swapIndex_of_ne ha hb]

/-- The grid with the rows `a` and `b` exchanged. -/
def swapRows (g : Grid α m n) (a b : Fin m) : Grid α m n := ofFn fun i => g.cell (swapIndex a b i)

@[simp] theorem cell_swapRows (g : Grid α m n) (a b i : Fin m) (j : Fin n) :
    (g.swapRows a b).cell i j = g.cell (swapIndex a b i) j := by
  simp [swapRows]

/-- The grid with the cells of the rows `a` and `b` exchanged in the columns from `start` up to, but
not including, `stop`. -/
def swapSpan (g : Grid α m n) (a b : Fin m) (start stop : Nat) : Grid α m n :=
  ofFn fun i j => g.cell (if start ≤ j ∧ j < stop then swapIndex a b i else i) j

@[simp] theorem cell_swapSpan (g : Grid α m n) (a b i : Fin m) (start stop : Nat) (j : Fin n) :
    (g.swapSpan a b start stop).cell i j =
      g.cell (if start ≤ j ∧ j < stop then swapIndex a b i else i) j := by
  simp [swapSpan]

/-! ### Identity and product -/

/-- The grid of ones on the diagonal and zeros elsewhere. -/
def identity (α : Type) [Zero α] [One α] (m n : Nat) : Grid α m n :=
  ofFn fun i j => if i.val = j.val then 1 else 0

@[simp] theorem cell_identity [Zero α] [One α] (i : Fin m) (j : Fin n) :
    (identity α m n).cell i j = if i.val = j.val then 1 else 0 := by
  simp [identity]

/-- The product: each cell sums the products along a row and a column, from zero and in order. -/
def mul [Zero α] [Add α] [Mul α] (g : Grid α m k) (h : Grid α k n) : Grid α m n :=
  ofFn fun i j => Fin.foldl k (fun sum l => sum + g.cell i l * h.cell l j) 0

@[simp] theorem cell_mul [Zero α] [Add α] [Mul α] (g : Grid α m k) (h : Grid α k n) (i : Fin m)
    (j : Fin n) :
    (g.mul h).cell i j = Fin.foldl k (fun sum l => sum + g.cell i l * h.cell l j) 0 := by
  simp [mul]

/-! ### Rows as lists -/

/-- The rows as lists. -/
def toRows (g : Grid α m n) : List (List α) := (g.rows.map Vector.toList).toList

/-- The cells row by row. -/
def toList (g : Grid α m n) : List α := g.toRows.flatten

@[simp] theorem length_toRows (g : Grid α m n) : g.toRows.length = m := by simp [toRows]

/-- Every row has as many cells as the grid is wide. -/
theorem length_of_mem_toRows {g : Grid α m n} {row : List α} (h : row ∈ g.toRows) :
    row.length = n := by
  simp only [toRows, Vector.mem_toList_iff, Vector.mem_map] at h
  obtain ⟨v, _, rfl⟩ := h
  simp

end Grid

end MatrixCalc
