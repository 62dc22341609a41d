/-
**Matrices of exact numbers.**

Rational numbers are added, multiplied and divided without rounding, and every magnitude compares with a
tolerance.  So over them the operations on grids are those of linear algebra: a product of grids has the
sums of products as its cells, and a cell that is not negligible divides, unless the tolerance is negative.

Main definitions:

* `MatrixCalc.instNumericRat` — exact numbers as cells;
* `MatrixCalc.Grid.toMatrix` — the cells of a grid as a matrix of linear algebra.

Main results:

* `MatrixCalc.Grid.cell_mul_eq_sum`, `MatrixCalc.Grid.toMatrix_mul` — products;
* `MatrixCalc.DenseMatrix.permutation_order` — the matrix of a permutation vector;
* `MatrixCalc.DenseMatrix.ext_cell` — a matrix is determined by its shape and its cells.
-/

import Mathlib.Algebra.BigOperators.Fin
import Mathlib.Algebra.Order.Field.Rat
import Mathlib.Data.Matrix.Mul
import MatrixCalc.Value.Operators

set_option autoImplicit false

namespace MatrixCalc

/-! ### Magnitudes -/

/-- Every exact number other than zero divides. -/
instance instNumericRat : Numeric ℚ where
  negligible tolerance x := decide (|x| ≤ tolerance)
  excessive tolerance x := decide (tolerance < |x|)
  isDivisor x := decide (x ≠ 0)

theorem negligible_iff {tolerance x : ℚ} : Numeric.negligible tolerance x = true ↔ |x| ≤ tolerance :=
  decide_eq_true_iff

theorem isDivisor_iff {x : ℚ} : Numeric.isDivisor x = true ↔ x ≠ 0 := decide_eq_true_iff

/-- What is not negligible is not zero. -/
theorem ne_zero_of_not_negligible {tolerance x : ℚ} (h : 0 ≤ tolerance)
    (hx : Numeric.negligible tolerance x = false) : x ≠ 0 := by
  rintro rfl
  have hzero : Numeric.negligible tolerance (0 : ℚ) = true := by
    rw [negligible_iff, abs_zero]
    exact h
  rw [hzero] at hx
  nomatch hx

/-- Without a tolerance, zero only is negligible. -/
theorem negligible_zero_iff {x : ℚ} : Numeric.negligible 0 x = true ↔ x = 0 := by
  rw [negligible_iff, abs_nonpos_iff]

/-! ### Products -/

/-- Adding up from zero and in order is the sum. -/
theorem foldl_add_eq_sum : ∀ (k : Nat) (f : Fin k → ℚ),
    Fin.foldl k (fun sum l => sum + f l) 0 = ∑ l, f l := by
  intro k
  induction k with
  | zero =>
      intro f
      rw [Fin.foldl_zero, Fin.sum_univ_zero]
  | succ k ih =>
      intro f
      rw [Fin.foldl_succ_last, Fin.sum_univ_castSucc, ih]

namespace Grid

variable {k m n : Nat}

/-- The cells of a grid as a matrix. -/
def toMatrix (g : Grid ℚ m n) : Matrix (Fin m) (Fin n) ℚ := Matrix.of g.cell

@[simp] theorem toMatrix_apply (g : Grid ℚ m n) (i : Fin m) (j : Fin n) :
    g.toMatrix i j = g.cell i j := rfl

/-- A grid is determined by its matrix. -/
theorem toMatrix_injective : Function.Injective (toMatrix : Grid ℚ m n → Matrix (Fin m) (Fin n) ℚ) := by
  intro g h hgh
  apply ext_cell
  intro i j
  rw [← toMatrix_apply, hgh, toMatrix_apply]

/-- The cells of a product are sums of products. -/
theorem cell_mul_eq_sum (g : Grid ℚ m k) (h : Grid ℚ k n) (i : Fin m) (j : Fin n) :
    (g.mul h).cell i j = ∑ l, g.cell i l * h.cell l j := by
  rw [cell_mul]
  exact foldl_add_eq_sum k fun l => g.cell i l * h.cell l j

/-- Products of grids are products of matrices. -/
theorem toMatrix_mul (g : Grid ℚ m k) (h : Grid ℚ k n) :
    (g.mul h).toMatrix = g.toMatrix * h.toMatrix := by
  ext i j
  rw [toMatrix_apply, cell_mul_eq_sum, Matrix.mul_apply]
  rfl

theorem toMatrix_identity : (identity ℚ n n).toMatrix = 1 := by
  ext i j
  rw [toMatrix_apply, cell_identity, Matrix.one_apply]
  simp only [Fin.ext_iff]

/-- The product with the grid of a permutation vector has the rows that the vector says. -/
theorem cell_permutation_mul (order : Vector (Fin m) m) (g : Grid ℚ m n) (i : Fin m) (j : Fin n) :
    ((Permutation.matrix ℚ order).mul g).cell i j = g.cell (order.get i) j := by
  rw [cell_mul_eq_sum]
  simp only [Permutation.cell_matrix, ite_mul, one_mul, zero_mul]
  rw [Finset.sum_ite_eq']
  exact if_pos (Finset.mem_univ _)

end Grid

/-! ### Matrices of some shape -/

namespace DenseMatrix

/-- A matrix is determined by its shape and its cells. -/
theorem ext_cell {α : Type} {a b : DenseMatrix α} (hrows : a.nrows = b.nrows)
    (hcols : a.ncols = b.ncols)
    (hcells : ∀ i j, a.grid.cell i j = b.grid.cell (i.cast hrows) (j.cast hcols)) : a = b := by
  obtain ⟨m, n, g⟩ := a
  obtain ⟨m', n', g'⟩ := b
  obtain rfl : m = m' := hrows
  obtain rfl : n = n' := hcols
  exact congrArg (mk m n) (Grid.ext_cell hcells)

theorem mul_mk {α : Type} [Zero α] [Add α] [Mul α] {m k n : Nat} (g : Grid α m k) (h : Grid α k n) :
    mul ⟨m, k, g⟩ ⟨k, n, h⟩ = .ok ⟨m, n, g.mul h⟩ := by
  simp [mul]

theorem identity_mk {α : Type} [Zero α] [One α] (n : Nat) :
    (identity n n : Except MatrixError (DenseMatrix α)) = .ok ⟨n, n, Grid.identity α n n⟩ := by
  unfold identity sized
  rw [if_neg (by omega)]
  rfl

/-- Columns that are all in range make a matrix. -/
theorem permutation_of_forall {α : Type} [Zero α] [One α] {cols : List Int}
    (h : ∀ col ∈ cols, 0 ≤ col ∧ col < cols.length) :
    (permutation cols : Except MatrixError (DenseMatrix α)) = .ok ⟨cols.length, cols.length,
      .ofFn fun i j => if (j.val : Int) = cols.get i then 1 else 0⟩ := by
  unfold permutation
  simp only
  split
  · rename_i col row hfind
    have hin := h col (List.fst_mem_of_mem_zipIdx (List.mem_of_find?_eq_some hfind))
    have hout := List.find?_some hfind
    simp only [hin.1, hin.2, decide_true, Bool.and_self, Bool.not_true] at hout
    nomatch hout
  · rfl

/-- The matrix of a permutation vector. -/
theorem permutation_order {α : Type} [Zero α] [One α] {n : Nat} (order : Vector (Fin n) n) :
    permutation (List.ofFn fun i : Fin n => ((order.get i).val : Int)) =
      .ok ⟨n, n, Permutation.matrix α order⟩ := by
  have hrange : ∀ col ∈ List.ofFn (fun i : Fin n => ((order.get i).val : Int)),
      0 ≤ col ∧ col < (List.ofFn fun i : Fin n => ((order.get i).val : Int)).length := by
    intro col hcol
    obtain ⟨i, rfl⟩ := List.mem_ofFn.mp hcol
    rw [List.length_ofFn]
    exact ⟨Int.natCast_nonneg _, Int.ofNat_lt.mpr (order.get i).isLt⟩
  rw [permutation_of_forall hrange]
  refine congrArg Except.ok (ext_cell List.length_ofFn List.length_ofFn ?_)
  intro i j
  have hj : (j.val : Int) = ((order.get (i.cast List.length_ofFn)).val : Int) ↔
      j.cast List.length_ofFn = order.get (i.cast List.length_ofFn) := by
    rw [Int.ofNat_inj, Fin.ext_iff]
    rfl
  simp only [Grid.cell_ofFn, Permutation.cell_matrix, List.get_ofFn, hj]

end DenseMatrix

end MatrixCalc
