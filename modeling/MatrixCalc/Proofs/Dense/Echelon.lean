/-
**The echelon form and the rank.**

Read with exact numbers and without a tolerance, what remains of the grid is a staircase at any time.  The
row of each pivot is zero before the column where the pivot stands, these columns go up from row to row,
and the rows below are zero in all columns dealt with.  At the end the rows without a pivot are zero
altogether, so the number of pivots is the rank of the grid.

Main definitions:

* `MatrixCalc.Elimination.Staircase` — the shape of what remains, and where its pivots stand.

Main results:

* `MatrixCalc.Elimination.Staircase.rounds` — what remains is a staircase at any time;
* `MatrixCalc.Elimination.Staircase.isPivotedBy` — and an echelon form at the end;
* `MatrixCalc.Grid.rank_lu` — **the rank of the decomposition is the rank of the grid**;
* `MatrixCalc.Grid.rank_lu_lt_iff` — of a square grid, it is too small if the determinant is zero.
-/

import Mathlib.LinearAlgebra.Matrix.Echelon.Decomposition
import Mathlib.LinearAlgebra.Matrix.ToLinearEquiv
import Mathlib.LinearAlgebra.Matrix.FiniteDimensional
import MatrixCalc.Proofs.Dense.Factors

set_option autoImplicit false

namespace MatrixCalc

namespace Elimination

variable {m n : Nat}

/-- The shape of what remains of a grid: a staircase with a pivot in each of its rows, at the places in
`lead`, and zeros in the columns dealt with below it. -/
structure Staircase (s : Elimination ℚ m n) (lead : Fin m → WithTop (Fin n)) : Prop where
  /-- Each row with a pivot has it in a column dealt with, and zeros before it. -/
  pivot : ∀ i : Fin m, i.val < s.pivots → ∃ c : Fin n, lead i = c ∧ c.val < s.column ∧
    s.upper.toMatrix.IsLeadingEntry i c
  /-- Pivots stand further to the right from row to row. -/
  strict : ∀ i k : Fin m, i < k → k.val < s.pivots → lead i < lead k
  /-- The other rows have no pivot. -/
  rest : ∀ i : Fin m, s.pivots ≤ i.val → lead i = ⊤
  /-- The other rows are zero in the columns dealt with. -/
  zero : ∀ i : Fin m, s.pivots ≤ i.val → ∀ j : Fin n, j.val < s.column → s.upper.cell i j = 0

namespace Staircase

variable {s : Elimination ℚ m n} {lead : Fin m → WithTop (Fin n)}

theorem start (g : Grid ℚ m n) : Staircase (Elimination.start g) fun _ => ⊤ where
  pivot _ hi := absurd hi (Nat.not_lt_zero _)
  strict _ _ _ hk := absurd hk (Nat.not_lt_zero _)
  rest _ _ := rfl
  zero _ _ _ hj := absurd hj (Nat.not_lt_zero _)

/-- A column that is zero from the pivot row on can be skipped. -/
theorem skip (h : Staircase s lead)
    (hzero : ∀ i : Fin m, s.pivots ≤ i → ∀ j : Fin n, j.val = s.column → s.upper.cell i j = 0) :
    Staircase s.skip lead where
  pivot i hi := by
    obtain ⟨c, hc, hlt, hlead⟩ := h.pivot i hi
    exact ⟨c, hc, Nat.lt_succ_of_lt hlt, hlead⟩
  strict := h.strict
  rest := h.rest
  zero i hi j hj := by
    have hj' : j.val < s.column + 1 := hj
    rcases Nat.lt_or_eq_of_le (Nat.le_of_lt_succ hj') with hlt | heq
    · exact h.zero i hi j hlt
    · exact hzero i hi j heq

/-- The pivot row and the rows below it are exchanged among themselves. -/
theorem swap (h : Staircase s lead) (hp : s.pivots < m) {r : Fin m} (hr : s.pivots ≤ r) :
    Staircase (s.swap ⟨s.pivots, hp⟩ r) lead where
  pivot i hi := by
    have hi' : i.val < s.pivots := hi
    obtain ⟨c, hc, hlt, hlead⟩ := h.pivot i hi'
    have hstay : Grid.swapIndex ⟨s.pivots, hp⟩ r i = i :=
      Grid.swapIndex_of_lt (le_refl _) hr hi'
    have hrow : ∀ j, (s.swap ⟨s.pivots, hp⟩ r).upper.toMatrix i j = s.upper.toMatrix i j := by
      intro j
      show (s.upper.swapRows ⟨s.pivots, hp⟩ r).cell i j = s.upper.cell i j
      rw [Grid.cell_swapRows, hstay]
    refine ⟨c, hc, hlt, ?_, ?_⟩
    · intro j hj
      rw [hrow]
      exact hlead.1 j hj
    · rw [hrow]
      exact hlead.2
  strict := h.strict
  rest := h.rest
  zero i hi j hj := by
    show (s.upper.swapRows ⟨s.pivots, hp⟩ r).cell i j = 0
    rw [Grid.cell_swapRows]
    exact h.zero _ (Grid.le_swapIndex (le_refl _) hr hi) j hj

/-- Clearing the column below a pivot that is not zero adds a step to the staircase. -/
theorem clear (h : Staircase s lead) {p : Fin m} (hp : p.val = s.pivots) {c : Fin n}
    (hc : c.val = s.column) (hpivot : s.upper.cell p c ≠ 0) :
    Staircase (s.clear 0 p c) (Function.update lead p c) := by
  have hcolumn : (s.clear 0 p c).column = s.column + 1 := by
    show s.pivots + 1 + s.skipped = s.pivots + s.skipped + 1
    omega
  refine ⟨?_, ?_, ?_, ?_⟩
  · intro i hi
    have hi' : i.val < s.pivots + 1 := hi
    have hle : i ≤ p := by
      rw [Fin.le_def]
      omega
    by_cases hip : i = p
    · -- the new step
      subst hip
      refine ⟨c, Function.update_self i _ lead, by omega, ?_, ?_⟩
      · intro j hj
        rw [Grid.toMatrix_apply, cell_clear_of_le hle]
        exact h.zero i (by omega) j (by rw [← hc]; exact hj)
      · rw [Grid.toMatrix_apply, cell_clear_of_le hle]
        exact hpivot
    · have hlt : i.val < s.pivots := by
        have hne : i.val ≠ p.val := fun heq => hip (Fin.ext heq)
        omega
      obtain ⟨c', hc', hlt', hlead⟩ := h.pivot i hlt
      refine ⟨c', by rw [Function.update_of_ne hip, hc'], by omega, ?_, ?_⟩
      · intro j hj
        rw [Grid.toMatrix_apply, cell_clear_of_le hle]
        exact hlead.1 j hj
      · rw [Grid.toMatrix_apply, cell_clear_of_le hle]
        exact hlead.2
  · intro i k hik hk
    have hk' : k.val < s.pivots + 1 := hk
    have hip : i ≠ p := Fin.ne_of_val_ne (by rw [Fin.lt_def] at hik; omega)
    rw [Function.update_of_ne hip]
    by_cases hkp : k = p
    · -- the new step is to the right of all others
      obtain ⟨c', hc', hlt', -⟩ := h.pivot i (by rw [Fin.lt_def] at hik; omega)
      rw [hkp, Function.update_self, hc', WithTop.coe_lt_coe, Fin.lt_def]
      omega
    · have hlt : k.val < s.pivots := by
        have hne : k.val ≠ p.val := fun heq => hkp (Fin.ext heq)
        omega
      rw [Function.update_of_ne hkp]
      exact h.strict i k hik hlt
  · intro i hi
    have hi' : s.pivots + 1 ≤ i.val := hi
    have hip : i ≠ p := Fin.ne_of_val_ne (by omega)
    rw [Function.update_of_ne hip]
    exact h.rest i (by omega)
  · -- below the new step the column is cleared, whether a row needs it or not
    intro i hi j hj
    have hi' : s.pivots + 1 ≤ i.val := hi
    have hlt : p < i := by
      rw [Fin.lt_def]
      omega
    simp only [Elimination.clear, Grid.cell_ofFn]
    rcases Nat.lt_or_eq_of_le (Nat.le_of_lt_succ (hcolumn ▸ hj)) with hold | hnew
    · -- in the columns before, both rows are zero
      have hzero := h.zero i (by omega) j hold
      have hzero' := h.zero p (by omega) j hold
      simp [hzero, hzero']
    · obtain rfl : j = c := Fin.ext (by omega)
      split
      · rw [factor, mul_div_cancel₀ _ hpivot, sub_self]
      · rename_i hneeds
        simp only [needsClearing, hlt, decide_true, Bool.true_and, Bool.not_eq_true',
          Bool.not_eq_false] at hneeds
        exact negligible_zero_iff.mp hneeds

theorem round {s' : Elimination ℚ m n} (h : Staircase s lead) (hround : s.round 0 = .ok s') :
    ∃ lead', Staircase s' lead' := by
  rcases round_cases hround with ⟨rfl, _⟩ | ⟨hc, _, hfind, rfl⟩ | ⟨hp, hc, r, hfind, rfl⟩
  · exact ⟨lead, h⟩
  · refine ⟨lead, h.skip ?_⟩
    intro i hi j hj
    obtain rfl : j = ⟨s.column, hc⟩ := Fin.ext hj
    exact negligible_zero_iff.mp (findPivot?_none hfind i hi)
  · have hpivot := pivot_ne_zero (le_refl 0) hfind
    rw [← cell_swap_pivot s ⟨s.pivots, hp⟩] at hpivot
    exact ⟨_, (h.swap hp (findPivot?_some hfind).1).clear rfl rfl hpivot⟩

/-- What remains is a staircase at any time. -/
theorem rounds {g : Grid ℚ m n} {k : Nat} {s' : Elimination ℚ m n}
    (hrounds : Elimination.rounds 0 k (.start g) = .ok s') : ∃ lead, Staircase s' lead := by
  refine rounds_preserves (fun t => ∃ lead, Staircase t lead) ?_ k hrounds ⟨_, .start g⟩
  rintro t t' hround ⟨lead, ht⟩
  exact ht.round hround

/-- **A staircase through all columns or all rows is an echelon form.** -/
theorem isPivotedBy (h : Staircase s lead) (hdone : m ≤ s.pivots ∨ n ≤ s.column) :
    s.upper.toMatrix.IsPivotedBy lead := by
  have hrest : ∀ i : Fin m, s.pivots ≤ i.val → s.upper.toMatrix i = 0 := by
    intro i hi
    funext j
    rcases hdone with hrows | hcols
    · omega
    · exact h.zero i hi j (lt_of_lt_of_le j.isLt hcols)
  have hlt : ∀ i : Fin m, lead i ≠ ⊤ → i.val < s.pivots := by
    intro i hi
    by_contra hle
    exact hi (h.rest i (Nat.le_of_not_lt hle))
  refine Matrix.isPivotedBy_iff'.mpr ⟨?_, ?_, ?_⟩
  · intro i k hik
    rcases eq_or_lt_of_le hik with rfl | hik
    · exact le_refl _
    · by_cases hk : k.val < s.pivots
      · exact (h.strict i k hik hk).le
      · rw [h.rest k (Nat.le_of_not_lt hk)]
        exact le_top
  · intro i _ k hk hik
    exact h.strict i k hik (hlt k hk)
  · intro i
    by_cases hi : i.val < s.pivots
    · obtain ⟨c, hc, -, hlead⟩ := h.pivot i hi
      exact .inr ⟨c, hc, hlead⟩
    · exact .inl ⟨h.rest i (Nat.le_of_not_lt hi), hrest i (Nat.le_of_not_lt hi)⟩

end Staircase

end Elimination

/-! ### The rank -/

/-- A square matrix has full rank unless its determinant is zero. -/
theorem rank_lt_iff_det_eq_zero {n : Nat} (A : Matrix (Fin n) (Fin n) ℚ) :
    A.rank < n ↔ A.det = 0 := by
  constructor
  · intro hlt
    by_contra hdet
    have hrank := Matrix.rank_of_det_ne_zero hdet
    rw [Fintype.card_fin] at hrank
    omega
  · intro hdet
    refine lt_of_le_of_ne A.rank_le_width ?_
    intro hrank
    have hrows : LinearIndependent ℚ A.row := by
      rw [linearIndependent_iff_card_eq_finrank_span, Set.finrank, ← A.rank_eq_finrank_span_row,
        hrank, Fintype.card_fin]
    have hunit := Matrix.linearIndependent_rows_iff_isUnit.mp hrows
    exact (A.isUnit_iff_isUnit_det.mp hunit).ne_zero hdet

namespace Elimination

variable {m n : Nat}

/-- As many rows have a pivot as there are pivots. -/
theorem Staircase.card_lead {s : Elimination ℚ m n} {lead : Fin m → WithTop (Fin n)}
    (hs : Filled s) (h : Staircase s lead) :
    (Finset.univ.filter fun i => lead i ≠ ⊤).card = s.pivots := by
  have hiff : ∀ i : Fin m, lead i ≠ ⊤ ↔ i.val < s.pivots := by
    intro i
    constructor
    · intro hi
      by_contra hle
      exact hi (h.rest i (Nat.le_of_not_lt hle))
    · intro hi
      obtain ⟨c, hc, -⟩ := h.pivot i hi
      rw [hc]
      exact WithTop.coe_ne_top
  simp only [hiff]
  rw [Fin.card_filter_val_lt, Nat.min_eq_right hs.pivots]

end Elimination

/-- The factors as matrices. -/
theorem Elimination.Factorises.toMatrix_mul_result {m n : Nat} {g : Grid ℚ m n}
    {s : Elimination ℚ m n} (hs : Filled s) (h : Factorises g s) :
    s.result.lower.toMatrix * s.result.upper.toMatrix =
      g.toMatrix.submatrix s.order.get id := by
  rw [← Grid.toMatrix_mul]
  ext i j
  exact h.cell_mul_result hs i j

/-- **The rank of the decomposition is the rank of the grid.** -/
theorem Grid.rank_lu {m n : Nat} {g : Grid ℚ m n} {d : LU ℚ m n} (h : g.lu 0 = .ok d) :
    d.rank = g.toMatrix.rank := by
  obtain ⟨s, hs, hlu⟩ := g.lu_eq (le_refl 0)
  obtain rfl := Except.ok.inj (hlu.symm.trans h)
  have hfilled := Elimination.Filled.rounds hs
  have hdone : m ≤ s.pivots ∨ n ≤ s.column := by
    rcases Elimination.rounds_done n hs with hdone | hcolumn
    · exact hdone
    · exact .inr (by omega)
  obtain ⟨lead, hlead⟩ := Elimination.Staircase.rounds hs
  -- the lower factor and the exchanges of rows can be undone, so they keep the rank
  have hlower : s.result.lower.toMatrix.IsLowerTriangular := by
    intro i j hij
    have hlt : i < j := hij
    exact hfilled.lower_result_of_lt hlt
  have hdiag : ∀ i, s.result.lower.toMatrix.diag i ≠ 0 := by
    intro i
    rw [Matrix.diag_apply, Grid.toMatrix_apply, s.lower_result_self]
    exact one_ne_zero
  let order := Equiv.ofBijective _ (Finite.injective_iff_bijective.mp hfilled.order)
  calc s.result.rank
      = (Finset.univ.filter fun i => lead i ≠ ⊤).card := by
        rw [hfilled.rank_result hdone, hlead.card_lead hfilled]
    _ = s.result.upper.toMatrix.rank := (hlead.isPivotedBy hdone).rank_eq.symm
    _ = (s.result.lower.toMatrix * s.result.upper.toMatrix).rank :=
        (Matrix.rank_mul_eq_right_of_isLowerTriangular _ _ hlower hdiag).symm
    _ = (g.toMatrix.submatrix order (Equiv.refl _)).rank := by
        rw [(Elimination.Factorises.rounds hs).toMatrix_mul_result hfilled]
        rfl
    _ = g.toMatrix.rank := g.toMatrix.rank_submatrix order (Equiv.refl _)

/-- A square grid of less than full rank has no determinant other than zero. -/
theorem Grid.rank_lu_lt_iff {n : Nat} (g : Grid ℚ n n) :
    (∃ d, g.lu 0 = .ok d ∧ d.rank < n) ↔ g.toMatrix.det = 0 := by
  obtain ⟨s, -, hlu⟩ := g.lu_eq (le_refl 0)
  rw [← rank_lt_iff_det_eq_zero, ← Grid.rank_lu hlu]
  constructor
  · rintro ⟨d, hd, hlt⟩
    obtain rfl := Except.ok.inj (hlu.symm.trans hd)
    exact hlt
  · intro hlt
    exact ⟨_, hlu, hlt⟩

end MatrixCalc
