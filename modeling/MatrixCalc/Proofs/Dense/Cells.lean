/-
**The cells of a matrix, row after row.**

The cells of a matrix stand in one buffer, the rows one after the other, so each cell has its place there.  A buffer
that has the cells of a grid in their places makes a matrix of this grid.  Operations make their results from such
buffers, and nothing is ever refused then: a copy of a matrix has its cells, and operations cell by cell give a
buffer of the same length.

Main results:

* `MatrixCalc.Grid.getElem?_toList` — the place of a cell;
* `MatrixCalc.DenseMatrix.ofCells_eq` — **which buffers make a grid**;
* `MatrixCalc.DenseMatrix.ofCells_cells`, `MatrixCalc.DenseMatrix.ofCells_map`,
  `MatrixCalc.DenseMatrix.ofCells_zipWith` — the buffers of results fit their shapes.
-/

import MatrixCalc.Dense.DenseMatrix
import Mathlib.Data.List.Basic

set_option autoImplicit false

namespace MatrixCalc

namespace Grid

variable {α : Type} {m n : Nat}

@[simp] theorem length_toList (g : Grid α m n) : g.toList.length = m * n := by
  have hlengths : ∀ row ∈ g.toRows, row.length = n := fun row hrow => length_of_mem_toRows hrow
  rw [toList, List.length_flatten, List.map_eq_replicate_iff.2 hlengths, List.sum_replicate_nat, length_toRows]

/-- The cells of rows of the same length, one row after the other. -/
theorem getElem?_flatten {rows : List (List α)} (h : ∀ row ∈ rows, row.length = n) (i : Nat) {j : Nat} (hj : j < n) :
    rows.flatten[i * n + j]? = rows[i]?.bind (·[j]?) := by
  induction rows generalizing i with
  | nil => simp
  | cons row rows ih =>
      obtain ⟨hrow, hrows⟩ := List.forall_mem_cons.1 h
      rw [List.flatten_cons]
      cases i with
      | zero =>
          rw [Nat.zero_mul, Nat.zero_add, List.getElem?_append_left (by omega)]
          rfl
      | succ i =>
          have hplace : (i + 1) * n + j = n + (i * n + j) := by rw [Nat.succ_mul]; omega
          rw [hplace, ← hrow, List.getElem?_append_right (Nat.le_add_right _ _), Nat.add_sub_cancel_left, hrow,
            ih hrows]
          rfl

/-- The cell in row `i` and column `j` stands behind the rows above it and the cells to its left. -/
theorem getElem?_toList (g : Grid α m n) (i : Fin m) (j : Fin n) : g.toList[i * n + j]? = some (g.cell i j) := by
  have hrow : g.toRows[i.val]? = some (g.rows[i]).toList := by simp [toRows]
  rw [toList, getElem?_flatten (fun row hrow => length_of_mem_toRows hrow) i j.isLt, hrow]
  simp [cell]

end Grid

namespace DenseMatrix

variable {α β γ : Type}

/-- A matrix has as many cells as its shape says. -/
theorem length_cells (a : DenseMatrix α) : a.cells.length = a.nrows * a.ncols := a.grid.length_toList

theorem sized_natCast {m n : Nat} (build : (m n : Nat) → Except MatrixError (Grid α m n)) :
    sized m n build = (build m n).map fun g => ⟨m, n, g⟩ := by
  rw [sized, if_neg (by omega)]
  rfl

/-- **A buffer with the cells of a grid in their places makes this grid.** -/
theorem ofCells_eq {m n : Nat} {cs : List α} {g : Grid α m n} (hlength : cs.length = m * n)
    (hcells : ∀ (i : Fin m) (j : Fin n), cs[i * n + j]? = some (g.cell i j)) :
    ofCells cs m n = .ok ⟨m, n, g⟩ := by
  have hsize : cs.toArray.size = m * n := hlength
  rw [ofCells, sized_natCast, dif_pos hsize]
  refine congrArg (fun g' => Except.ok (DenseMatrix.mk m n g')) (Grid.ext_cell fun i j => ?_)
  obtain ⟨hplace, hcell⟩ := List.getElem?_eq_some_iff.1 (hcells i j)
  rw [Grid.cell_ofFn]
  exact hcell

/-- A matrix is made by its own cells. -/
theorem ofCells_cells (a : DenseMatrix α) : ofCells a.cells a.nrows a.ncols = .ok a :=
  ofCells_eq a.length_cells a.grid.getElem?_toList

/-- The values of a function at the cells fit the shape. -/
theorem ofCells_map (f : α → β) (a : DenseMatrix α) :
    ofCells (a.cells.map f) a.nrows a.ncols = .ok (a.map f) := by
  refine ofCells_eq (by rw [List.length_map, length_cells]) fun i j => ?_
  rw [List.getElem?_map, cells, a.grid.getElem?_toList, Option.map_some, Grid.cell_map]

/-- The values of a function at the cells of two matrices of the same shape fit this shape. -/
theorem ofCells_zipWith (f : α → β → γ) {a : DenseMatrix α} {b : DenseMatrix β} (h : a.shape = b.shape) :
    ofCells (List.zipWith f a.cells b.cells) a.nrows a.ncols = a.zipWith f b := by
  obtain ⟨m, n, g⟩ := a
  obtain ⟨m', n', g'⟩ := b
  obtain ⟨rfl, rfl⟩ : m = m' ∧ n = n' := by simpa [shape] using h
  have hsame : zipWith f ⟨m, n, g⟩ ⟨m, n, g'⟩ = .ok ⟨m, n, g.zipWith f g'⟩ := by simp [zipWith]
  rw [hsame]
  refine ofCells_eq (by simp [length_cells]) fun i j => ?_
  rw [List.getElem?_zipWith, cells, cells, g.getElem?_toList, g'.getElem?_toList, Grid.cell_zipWith]

end DenseMatrix

end MatrixCalc
