/-
**The echelon form and the independent rows.**

With exact numbers and without a tolerance, what elimination leaves of a matrix of any shape is an echelon
form: the leading cells of its rows stand further to the right from row to row, and rows of zeros are last.
The rank that goes with it is computed from the shape and from the number of skipped columns.  It is both
the number of rows of the echelon form that are not zero and the greatest number of rows of the matrix that
are linearly independent.

Main definitions:

* `MatrixCalc.Grid.IsEchelon` — echelon forms.

Main results:

* `MatrixCalc.isGreatest_card_rank` — the rank is the greatest number of independent rows;
* `MatrixCalc.Elimination.Staircase.isEchelon` — a staircase through all columns or rows is an echelon form;
* `MatrixCalc.Elimination.Staircase.card_row_ne_zero` — as many of its rows are not zero as there are
  pivots;
* `MatrixCalc.DenseMatrix.lu_echelon_rank` — **the echelon form and the rank**.
-/

import Mathlib.LinearAlgebra.LinearIndependent.Lemmas
import MatrixCalc.Proofs.Dense.Echelon

set_option autoImplicit false

namespace MatrixCalc

/-! ### Independent rows -/

section

variable {m n : Nat} (A : Matrix (Fin m) (Fin n) ℚ)

/-- Independent rows span a space of as many dimensions as there are rows. -/
theorem finrank_span_row_image {s : Finset (Fin m)} (hs : LinearIndepOn ℚ A.row (s : Set (Fin m))) :
    Module.finrank ℚ (Submodule.span ℚ (A.row '' (s : Set (Fin m)))) = s.card := by
  have hrange : A.row '' (s : Set (Fin m)) = Set.range fun i : (s : Set (Fin m)) => A.row i :=
    Set.image_eq_range _ _
  have hcard := finrank_span_eq_card (R := ℚ) hs
  rw [hrange, hcard]
  exact Fintype.card_coe s

/-- **The rank is the greatest number of independent rows.** -/
theorem isGreatest_card_rank :
    IsGreatest {k | ∃ s : Finset (Fin m), s.card = k ∧ LinearIndepOn ℚ A.row (s : Set (Fin m))}
      A.rank := by
  constructor
  · -- rows are added to none at all, until every row depends on them
    obtain ⟨b, -, -, hspan, hb⟩ := exists_linearIndepOn_extension
      (linearIndepOn_empty ℚ A.row) (Set.empty_subset Set.univ)
    have hfinite : b.Finite := Set.toFinite b
    have hind : LinearIndepOn ℚ A.row (hfinite.toFinset : Set (Fin m)) := by
      rwa [hfinite.coe_toFinset]
    have hrange : Set.range A.row ⊆ Submodule.span ℚ (A.row '' b) := by
      rw [← Set.image_univ]
      exact hspan
    have heq : Submodule.span ℚ (Set.range A.row) = Submodule.span ℚ (A.row '' b) :=
      le_antisymm (Submodule.span_le.2 hrange) (Submodule.span_mono (Set.image_subset_range _ _))
    refine ⟨hfinite.toFinset, ?_, hind⟩
    rw [A.rank_eq_finrank_span_row, heq, ← finrank_span_row_image A hind, hfinite.coe_toFinset]
  · rintro k ⟨s, rfl, hs⟩
    rw [A.rank_eq_finrank_span_row, ← finrank_span_row_image A hs]
    exact Submodule.finrank_mono (Submodule.span_mono (Set.image_subset_range _ _))

end

/-! ### Echelon forms -/

/-- A grid is an echelon form. -/
structure Grid.IsEchelon {m n : Nat} (g : Grid ℚ m n) : Prop where
  /-- The leading cell of a row is to the right of those of the rows above. -/
  leading_lt : ∀ i k j l, i < k → g.toMatrix.IsLeadingEntry i j → g.toMatrix.IsLeadingEntry k l → j < l
  /-- Below a row of zeros there are rows of zeros only. -/
  zero_of_lt : ∀ i k, i < k → (∀ j, g.cell i j = 0) → ∀ j, g.cell k j = 0

namespace Elimination.Staircase

variable {m n : Nat} {s : Elimination ℚ m n} {lead : Fin m → WithTop (Fin n)}

/-- A staircase through all columns or all rows is an echelon form. -/
theorem isEchelon (h : Staircase s lead) (hdone : m ≤ s.pivots ∨ n ≤ s.column) :
    s.upper.IsEchelon := by
  have hp := h.isPivotedBy hdone
  constructor
  · intro i k j l hik hj hl
    by_contra hle
    -- a cell before the leading one of the row above is zero, and so is the cell below it
    have hzero : s.upper.toMatrix k l = 0 := by
      refine hp.isRowEchelon hik fun j' hj' => hj.1 j' ?_
      exact lt_of_lt_of_le hj' (not_lt.mp hle)
    exact hl.2 hzero
  · intro i k hik hi j
    exact hp.isRowEchelon hik fun j' _ => hi j'

/-- As many rows are not zero as there are pivots. -/
theorem card_row_ne_zero (hs : Filled s) (h : Staircase s lead) (hdone : m ≤ s.pivots ∨ n ≤ s.column) :
    (Finset.univ.filter fun i => ∃ j, s.upper.cell i j ≠ 0).card = s.pivots := by
  have hp := h.isPivotedBy hdone
  have hiff : ∀ i : Fin m, (∃ j, s.upper.cell i j ≠ 0) ↔ lead i ≠ ⊤ := by
    intro i
    rw [ne_eq, hp.eq_top_iff, funext_iff, not_forall]
    rfl
  simp only [hiff]
  exact h.card_lead hs

end Elimination.Staircase

namespace DenseMatrix

/-- **The echelon form and the rank.**  Of a matrix of any shape, the upper factor is an echelon form.  The
rank of the decomposition is the number of rows of this form that are not zero, it is the rank of the
matrix in linear algebra, and that is the greatest number of rows of the matrix that are linearly
independent. -/
theorem lu_echelon_rank (a : DenseMatrix ℚ) :
    ∃ d : LU ℚ a.nrows a.ncols, a.lu 0 = .ok d ∧
      d.upper.IsEchelon ∧
      (Finset.univ.filter fun i => ∃ j, d.upper.cell i j ≠ 0).card = d.rank ∧
      d.rank = a.grid.toMatrix.rank ∧
      IsGreatest {k | ∃ rows : Finset (Fin a.nrows), rows.card = k ∧
        LinearIndepOn ℚ a.grid.toMatrix.row (rows : Set (Fin a.nrows))} d.rank := by
  obtain ⟨m, n, g⟩ := a
  obtain ⟨s, hs, hlu⟩ := g.lu_eq (le_refl 0)
  have hfilled := Elimination.Filled.rounds hs
  obtain ⟨lead, hlead⟩ := Elimination.Staircase.rounds hs
  -- elimination has left the rows or the columns behind
  have hdone : m ≤ s.pivots ∨ n ≤ s.column := by
    rcases Elimination.rounds_done n hs with hdone | hcolumn
    · exact hdone
    · exact .inr (by omega)
  have hrank : s.result.rank = g.toMatrix.rank := Grid.rank_lu hlu
  refine ⟨s.result, hlu, hlead.isEchelon hdone, ?_, hrank, ?_⟩
  · rw [hfilled.rank_result hdone]
    exact hlead.card_row_ne_zero hfilled hdone
  · rw [hrank]
    exact isGreatest_card_rank g.toMatrix

/-- A wide matrix of rank two whose first column is skipped, and whose rows are exchanged. -/
example : (lu 0 (⟨3, 4, ⟨#v[#v[0, 0, 4, 6], #v[0, 1, 2, 5], #v[0, 2, 8, 16]]⟩⟩ : DenseMatrix ℚ)).map
    (fun d => (d.upper, d.rank)) =
      .ok (⟨#v[#v[0, 1, 2, 5], #v[0, 0, 4, 6], #v[0, 0, 0, 0]]⟩, 2) := by
  decide +kernel

end DenseMatrix

end MatrixCalc
