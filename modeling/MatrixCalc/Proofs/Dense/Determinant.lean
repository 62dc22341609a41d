/-
**The determinant.**

Read with exact numbers and without a tolerance, the echelon form of a square grid is triangular: each pivot
stands at the diagonal or to the right of it, and the rows without a pivot are zero.  So the product of its
diagonal is its determinant, also if columns have been skipped; then it is zero.  The lower factor has the
determinant one, and the order of the rows turns the sign as its cycles say.

Main definitions:

* `MatrixCalc.Grid.leibniz` — the sum over all permutations that defines the determinant.

Main results:

* `MatrixCalc.Elimination.Staircase.cell_of_lt` — an echelon form is zero below the diagonal;
* `MatrixCalc.Grid.diagonalProduct_lu` — the product of the diagonal is the determinant but for the sign;
* `MatrixCalc.DenseMatrix.det_leibniz` — **the determinant**.
-/

import Mathlib
import MatrixCalc.Proofs.Dense.CycleParity
import MatrixCalc.Proofs.Dense.Echelon

set_option autoImplicit false

namespace MatrixCalc

/-! ### Triangular echelon forms -/

namespace Elimination.Staircase

variable {m n : Nat} {s : Elimination ℚ m n} {lead : Fin m → WithTop (Fin n)}

/-- The pivots stand at the diagonal or to the right of it, by induction on the rows. -/
theorem le_lead (h : Staircase s lead) : ∀ (k : Nat) (hk : k < m), k < s.pivots → ∀ c : Fin n,
    lead ⟨k, hk⟩ = c → k ≤ c.val := by
  intro k
  induction k with
  | zero =>
      intro _ _ c _
      exact Nat.zero_le c.val
  | succ k ih =>
      intro hk hpivot c hc
      have hk' : k < m := Nat.lt_of_succ_lt hk
      obtain ⟨b, hb, -⟩ := h.pivot ⟨k, hk'⟩ (Nat.lt_of_succ_lt hpivot)
      have hlt := h.strict ⟨k, hk'⟩ ⟨k + 1, hk⟩ (Fin.mk_lt_mk.mpr (Nat.lt_succ_self k)) hpivot
      rw [hb, hc, WithTop.coe_lt_coe] at hlt
      exact Nat.succ_le_of_lt (Nat.lt_of_le_of_lt (ih hk' (Nat.lt_of_succ_lt hpivot) b hb) hlt)

/-- **An echelon form is zero below the diagonal.** -/
theorem cell_of_lt (h : Staircase s lead) (hdone : m ≤ s.pivots ∨ n ≤ s.column) {i : Fin m} {j : Fin n}
    (hij : j.val < i.val) : s.upper.cell i j = 0 := by
  by_cases hi : i.val < s.pivots
  · obtain ⟨c, hc, -, hlead⟩ := h.pivot i hi
    have hle : i.val ≤ c.val := h.le_lead i.val i.isLt hi c hc
    exact hlead.1 j (Fin.lt_def.mpr (Nat.lt_of_lt_of_le hij hle))
  · rcases hdone with hrows | hcols
    · omega
    · exact h.zero i (Nat.le_of_not_lt hi) j (Nat.lt_of_lt_of_le j.isLt hcols)

end Elimination.Staircase

/-! ### The determinant of a grid -/

/-- Multiplying in order is the product. -/
theorem foldl_mul_eq_prod : ∀ (k : Nat) (x : ℚ) (f : Fin k → ℚ),
    Fin.foldl k (fun product l => product * f l) x = x * ∏ l, f l := by
  intro k
  induction k with
  | zero =>
      intro x f
      rw [Fin.foldl_zero, Fin.prod_univ_zero, mul_one]
  | succ k ih =>
      intro x f
      rw [Fin.foldl_succ_last, Fin.prod_univ_castSucc, ih, mul_assoc]

namespace Grid

variable {n : Nat}

/-- The sum over all permutations of their sign times the product of the cells that they choose, one in each
column. -/
def leibniz (g : Grid ℚ n n) : ℚ :=
  ∑ σ : Equiv.Perm (Fin n), (Equiv.Perm.sign σ : ℤ) * ∏ j, g.cell (σ j) j

theorem leibniz_eq_det (g : Grid ℚ n n) : g.leibniz = g.toMatrix.det :=
  (Matrix.det_apply' g.toMatrix).symm

/-- A grid is singular if its determinant is zero. -/
theorem leibniz_eq_zero_iff (g : Grid ℚ n n) : g.leibniz = 0 ↔ ¬ IsUnit g.toMatrix := by
  rw [leibniz_eq_det, Matrix.isUnit_iff_isUnit_det, isUnit_iff_ne_zero, not_not]

/-- The sign of a permutation as an exact number. -/
theorem sign_order {order : Vector (Fin n) n} {σ : Equiv.Perm (Fin n)} (hσ : order.get = σ) :
    Permutation.sign ℚ order = (Equiv.Perm.sign σ : ℤ) := by
  rw [Permutation.sign, Permutation.sign_eq hσ]
  split <;> simp

/-- **The product of the diagonal of the echelon form is the determinant but for the sign** of the order of the
rows. -/
theorem diagonalProduct_lu {g : Grid ℚ n n} {d : LU ℚ n n} (h : g.lu 0 = .ok d) {σ : Equiv.Perm (Fin n)}
    (hσ : d.order.get = σ) (x : ℚ) :
    d.upper.diagonalProduct x = x * ((Equiv.Perm.sign σ : ℤ) * g.leibniz) := by
  obtain ⟨s, hs, hlu⟩ := g.lu_eq (le_refl 0)
  obtain rfl := Except.ok.inj (hlu.symm.trans h)
  have hfilled := Elimination.Filled.rounds hs
  have hdone : n ≤ s.pivots ∨ n ≤ s.column := by
    rcases Elimination.rounds_done n hs with hdone | hcolumn
    · exact hdone
    · exact .inr (by omega)
  obtain ⟨lead, hlead⟩ := Elimination.Staircase.rounds hs
  have hupper : s.result.upper.toMatrix.IsUpperTriangular := by
    intro i j hij
    exact hlead.cell_of_lt hdone hij
  have hlower : s.result.lower.toMatrix.IsLowerTriangular := by
    intro i j hij
    have hlt : i < j := hij
    exact hfilled.lower_result_of_lt hlt
  have hone : s.result.lower.toMatrix.det = 1 := by
    rw [Matrix.det_of_isLowerTriangular _ hlower]
    refine Finset.prod_eq_one fun i _ => ?_
    rw [toMatrix_apply, s.lower_result_self]
  have hdiagonal : ∏ i, s.result.upper.cell i i = (Equiv.Perm.sign σ : ℤ) * g.leibniz :=
    calc ∏ i, s.result.upper.cell i i
        = s.result.upper.toMatrix.det := (Matrix.det_of_isUpperTriangular hupper).symm
      _ = (s.result.lower.toMatrix * s.result.upper.toMatrix).det := by
          rw [Matrix.det_mul, hone, one_mul]
      _ = (g.toMatrix.submatrix σ id).det := by
          rw [(Elimination.Factorises.rounds hs).toMatrix_mul_result hfilled, ← hσ]
          rfl
      _ = (Equiv.Perm.sign σ : ℤ) * g.leibniz := by
          rw [Matrix.det_permute, leibniz_eq_det]
  rw [diagonalProduct, foldl_mul_eq_prod, hdiagonal]

end Grid

/-! ### Matrices -/

namespace DenseMatrix

/-- **The determinant.**  Of any square matrix, the signed determinant is the sum of the products that the
permutations choose, each with the sign of the permutation.  The product of the diagonal of the echelon form is
this sum times the sign of the order that the decomposition gives the rows.  Both are zero exactly if the matrix
is singular. -/
theorem det_leibniz {n : Nat} (g : Grid ℚ n n) :
    ∃ (d : LU ℚ n n) (σ : Equiv.Perm (Fin n)),
      lu 0 ⟨n, n, g⟩ = .ok d ∧ (∀ i, d.order.get i = σ i) ∧
      signedDet? 0 ⟨n, n, g⟩ = .ok (some g.leibniz) ∧
      det? 0 ⟨n, n, g⟩ = .ok (some ((Equiv.Perm.sign σ : ℤ) * g.leibniz)) ∧
      (signedDet? 0 ⟨n, n, g⟩ = .ok (some 0) ↔ ¬ IsUnit g.toMatrix) ∧
      (det? 0 ⟨n, n, g⟩ = .ok (some 0) ↔ ¬ IsUnit g.toMatrix) := by
  obtain ⟨s, hs, hlu⟩ := g.lu_eq (le_refl 0)
  have hbijective := Finite.injective_iff_bijective.mp (Elimination.Filled.rounds hs).order
  let σ := Equiv.ofBijective _ hbijective
  have hσ : s.result.order.get = σ := rfl
  have hproduct := Grid.diagonalProduct_lu hlu hσ
  have hsquare : (((Equiv.Perm.sign σ : ℤ) : ℚ)) * (Equiv.Perm.sign σ : ℤ) = 1 := by
    rw [← Int.cast_mul, ← Units.val_mul, Int.units_mul_self, Units.val_one, Int.cast_one]
  have hsigned : signedDet? 0 ⟨n, n, g⟩ = .ok (some g.leibniz) := by
    rw [signedDet?, onSquare?, dif_pos rfl, Grid.cast_rfl, Grid.signedDet, hlu]
    show Except.ok (some (s.result.upper.diagonalProduct (Permutation.sign ℚ s.result.order))) = _
    rw [hproduct, Grid.sign_order hσ, ← mul_assoc, hsquare, one_mul]
  have hunsigned : det? 0 ⟨n, n, g⟩ = .ok (some ((Equiv.Perm.sign σ : ℤ) * g.leibniz)) := by
    rw [det?, onSquare?, dif_pos rfl, Grid.cast_rfl, Grid.det, hlu]
    show Except.ok (some (s.result.upper.diagonalProduct 1)) = _
    rw [hproduct, one_mul]
  have hsign : ((Equiv.Perm.sign σ : ℤ) : ℚ) ≠ 0 := left_ne_zero_of_mul_eq_one hsquare
  refine ⟨s.result, σ, hlu, congrFun hσ, hsigned, hunsigned, ?_, ?_⟩
  · rw [hsigned, Except.ok.injEq, Option.some.injEq, g.leibniz_eq_zero_iff]
  · rw [hunsigned, Except.ok.injEq, Option.some.injEq, mul_eq_zero, or_iff_right hsign, g.leibniz_eq_zero_iff]

/-- Two rows are exchanged, which turns the sign of the product of the diagonal. -/
example : signedDet? 0 (⟨2, 2, ⟨#v[#v[0, 2], #v[3, 1]]⟩⟩ : DenseMatrix ℚ) = .ok (some (-6)) ∧
    det? 0 (⟨2, 2, ⟨#v[#v[0, 2], #v[3, 1]]⟩⟩ : DenseMatrix ℚ) = .ok (some 6) := by
  decide +kernel

end DenseMatrix

end MatrixCalc
