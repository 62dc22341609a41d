/-
**The factors of the LU decomposition.**

Read with exact numbers, elimination never divides by zero, and what it keeps multiplies out to the grid
again: at any time the lower factor, with ones on its diagonal, times what remains is the grid with its
rows in the order kept.  An exchange of rows permutes this equation, since the lower factor is zero in the
columns not reached yet; clearing a column moves multiples of the pivot row from one factor to the other.

Main definitions:

* `MatrixCalc.Elimination.Factorises` — the factors multiply out to the grid.

Main results:

* `MatrixCalc.Elimination.guards_of_nonneg` — no division fails;
* `MatrixCalc.Elimination.Factorises.rounds` — the factors multiply out at any time;
* `MatrixCalc.DenseMatrix.lu_factors` — **the LU decomposition**.
-/

import MatrixCalc.Proofs.Dense.Exact
import MatrixCalc.Proofs.Dense.Rounds

set_option autoImplicit false

namespace MatrixCalc

namespace Elimination

variable {m n : Nat} {tolerance : ℚ}

/-! ### No division fails -/

/-- The pivot that was found is not zero. -/
theorem pivot_ne_zero (h : 0 ≤ tolerance) {s : Elimination ℚ m n} {p : Nat} {c : Fin n} {r : Fin m}
    (hfind : findPivot? tolerance s.upper p c = some r) : s.upper.cell r c ≠ 0 :=
  ne_zero_of_not_negligible h (findPivot?_some hfind).2

/-- With exact numbers, no pivot is zero. -/
theorem guards_of_nonneg (h : 0 ≤ tolerance) : Numeric.Guards tolerance :=
  fun _ hx => isDivisor_iff.mpr (ne_zero_of_not_negligible h hx)

/-! ### The factors multiply out -/

/-- The lower factor, with ones on its diagonal, times what remains is the grid with its rows in the
order kept. -/
def Factorises (g : Grid ℚ m n) (s : Elimination ℚ m n) : Prop :=
  ∀ i j, s.upper.cell i j + ∑ k, s.lower.cell i k * s.upper.cell k j = g.cell (s.order.get i) j

namespace Factorises

variable {g : Grid ℚ m n} {s : Elimination ℚ m n}

theorem start (g : Grid ℚ m n) : Factorises g (Elimination.start g) := by
  intro i j
  simp [Elimination.start]

/-- Exchanging the pivot row with one below it permutes the rows of the equation. -/
theorem swap (hs : Filled s) (h : Factorises g s) (hp : s.pivots < m) {r : Fin m}
    (hr : s.pivots ≤ r) : Factorises g (s.swap ⟨s.pivots, hp⟩ r) := by
  intro i j
  -- the exchange of all cells of a row would not do more, since the cells left out are zero
  have hlower : ∀ k, (s.swap ⟨s.pivots, hp⟩ r).lower.cell i k =
      s.lower.cell (Grid.swapIndex ⟨s.pivots, hp⟩ r i) k := by
    intro k
    show (s.lower.swapSpan ⟨s.pivots, hp⟩ r 0 s.pivots).cell i k = _
    rw [Grid.cell_swapSpan]
    by_cases hk : k.val < s.pivots
    · rw [if_pos ⟨Nat.zero_le _, hk⟩]
    · rw [if_neg fun hc => hk hc.2, hs.lower _ _ fun hc => hk hc.2, hs.lower _ _ fun hc => hk hc.2]
  -- the rows that the lower factor meets stay where they are
  have hterm : ∀ k, s.lower.cell (Grid.swapIndex ⟨s.pivots, hp⟩ r i) k *
      s.upper.cell (Grid.swapIndex ⟨s.pivots, hp⟩ r k) j =
      s.lower.cell (Grid.swapIndex ⟨s.pivots, hp⟩ r i) k * s.upper.cell k j := by
    intro k
    by_cases hk : k.val < s.pivots
    · have hstay : Grid.swapIndex ⟨s.pivots, hp⟩ r k = k :=
        Grid.swapIndex_of_lt (le_refl _) hr hk
      rw [hstay]
    · rw [hs.lower _ _ fun hc => hk hc.2, zero_mul, zero_mul]
  have hupper : ∀ k, (s.swap ⟨s.pivots, hp⟩ r).upper.cell k j =
      s.upper.cell (Grid.swapIndex ⟨s.pivots, hp⟩ r k) j :=
    fun k => Grid.cell_swapRows s.upper _ _ k j
  simp only [hlower, hupper, hterm]
  rw [order_get_swap, ← h]

/-- Clearing a column moves multiples of the pivot row from one factor to the other. -/
theorem clear (hs : Filled s) (h : Factorises g s) {p : Fin m} (hp : p.val = s.pivots) (c : Fin n) :
    Factorises g (s.clear tolerance p c) := by
  intro i j
  -- the multiple of the pivot row that the row gives up
  let x := if needsClearing tolerance s.upper p c i then factor s.upper p c i else 0
  have hlower : ∀ k, (s.clear tolerance p c).lower.cell i k =
      s.lower.cell i k + if k = p then x else 0 := by
    intro k
    have hfree : s.lower.cell i p = 0 := hs.lower i p fun hc => by omega
    simp only [Elimination.clear, Grid.cell_ofFn, x]
    by_cases hk : k = p
    · subst hk
      by_cases hneeds : needsClearing tolerance s.upper k c i = true
      · simp [hneeds, hfree]
      · simp [hneeds]
    · simp [hk]
  have hupper : (s.clear tolerance p c).upper.cell i j =
      s.upper.cell i j - s.upper.cell p j * x := by
    simp only [Elimination.clear, Grid.cell_ofFn, x]
    split <;> simp
  -- the lower factor meets rows above the pivot row only, which stay
  have hterm : ∀ k, s.lower.cell i k * (s.clear tolerance p c).upper.cell k j =
      s.lower.cell i k * s.upper.cell k j := by
    intro k
    by_cases hk : k.val < s.pivots
    · have hkp : k ≤ p := by
        rw [Fin.le_def]
        omega
      rw [cell_clear_of_le hkp]
    · rw [hs.lower _ _ fun hc => hk hc.2, zero_mul, zero_mul]
  have hsum : ∑ k, (s.clear tolerance p c).lower.cell i k * (s.clear tolerance p c).upper.cell k j =
      ∑ k, s.lower.cell i k * s.upper.cell k j + s.upper.cell p j * x := by
    simp only [hlower, add_mul, hterm, ite_mul, zero_mul, Finset.sum_add_distrib]
    rw [Finset.sum_ite_eq', if_pos (Finset.mem_univ p), cell_clear_of_le (le_refl p), mul_comm x]
  calc (s.clear tolerance p c).upper.cell i j +
        ∑ k, (s.clear tolerance p c).lower.cell i k * (s.clear tolerance p c).upper.cell k j
      = s.upper.cell i j + ∑ k, s.lower.cell i k * s.upper.cell k j := by
        rw [hsum, hupper]
        ring
    _ = g.cell ((s.clear tolerance p c).order.get i) j := by
        rw [h i j]
        rfl

theorem round {s' : Elimination ℚ m n} (hs : Filled s) (h : Factorises g s)
    (hround : s.round tolerance = .ok s') : Factorises g s' := by
  rcases round_cases hround with ⟨rfl, _⟩ | ⟨_, _, _, rfl⟩ | ⟨hp, hc, r, hfind, rfl⟩
  · exact h
  · exact h
  · have hr := (findPivot?_some hfind).1
    exact clear (hs.swap hp hr) (swap hs h hp hr) rfl ⟨s.column, hc⟩

/-- The factors multiply out at any time. -/
theorem rounds {k : Nat} {s' : Elimination ℚ m n}
    (hrounds : Elimination.rounds tolerance k (.start g) = .ok s') : Factorises g s' := by
  have hboth : Filled s' ∧ Factorises g s' := by
    refine rounds_preserves (fun t => Filled t ∧ Factorises g t) ?_ k hrounds
      ⟨.start g, .start g⟩
    intro t t' hround ht
    exact ⟨ht.1.round hround, round ht.1 ht.2 hround⟩
  exact hboth.2

end Factorises

end Elimination

/-! ### The decomposition -/

/-- With exact numbers there is a decomposition, and it is what elimination has come to. -/
theorem Grid.lu_eq {m n : Nat} {tolerance : ℚ} (h : 0 ≤ tolerance) (g : Grid ℚ m n) :
    ∃ s, Elimination.rounds tolerance n (.start g) = .ok s ∧ g.lu tolerance = .ok s.result :=
  g.lu_eq_of_guards (Elimination.guards_of_nonneg h)

/-- The lower factor with its diagonal, times what remains. -/
theorem Elimination.Factorises.cell_mul_result {m n : Nat} {g : Grid ℚ m n} {s : Elimination ℚ m n}
    (hs : Filled s) (h : Factorises g s) (i : Fin m) (j : Fin n) :
    (s.result.lower.mul s.result.upper).cell i j = g.cell (s.order.get i) j := by
  have hlower : ∀ k, s.result.lower.cell i k = s.lower.cell i k + if k = i then 1 else 0 := by
    intro k
    have hfree : s.lower.cell i i = 0 := hs.lower i i fun hc => absurd hc.1 (lt_irrefl i)
    simp only [result, Grid.cell_ofFn]
    by_cases hk : k = i
    · rw [if_pos hk.symm, if_pos hk, hk, hfree, zero_add]
    · rw [if_neg (Ne.symm hk), if_neg hk, add_zero]
  rw [Grid.cell_mul_eq_sum]
  simp only [hlower, add_mul, ite_mul, one_mul, zero_mul, Finset.sum_add_distrib]
  rw [Finset.sum_ite_eq', if_pos (Finset.mem_univ i), add_comm]
  exact h i j

namespace DenseMatrix

/-- **The LU decomposition.**  For a matrix of any shape and a tolerance that is not negative, there is a
decomposition: its order permutes the rows, its lower factor is triangular with ones on the diagonal, and
the product of the factors is the product of the permutation matrix and the matrix, whose cells are those
of the matrix in the rows that the order says. -/
theorem lu_factors (a : DenseMatrix ℚ) (tolerance : ℚ) (h : 0 ≤ tolerance) :
    ∃ d : LU ℚ a.nrows a.ncols, a.lu tolerance = .ok d ∧
      Function.Bijective d.order.get ∧
      (∀ i, d.lower.cell i i = 1) ∧ (∀ i j, i < j → d.lower.cell i j = 0) ∧
      ∃ p product : DenseMatrix ℚ,
        permutation (List.ofFn fun i => ((d.order.get i).val : Int)) = .ok p ∧
        p.mul a = .ok product ∧
        mul ⟨a.nrows, a.nrows, d.lower⟩ ⟨a.nrows, a.ncols, d.upper⟩ = .ok product ∧
        product = ⟨a.nrows, a.ncols, .ofFn fun i j => a.grid.cell (d.order.get i) j⟩ := by
  obtain ⟨m, n, g⟩ := a
  obtain ⟨s, hs, hlu⟩ := g.lu_eq h
  have hfilled := Elimination.Filled.rounds hs
  have hfactors := Elimination.Factorises.rounds hs
  refine ⟨s.result, hlu, ?_, ?_, ?_, ⟨m, m, Permutation.matrix ℚ s.order⟩, _, ?_, ?_, ?_, rfl⟩
  · exact Finite.injective_iff_bijective.mp hfilled.order
  · exact s.lower_result_self
  · intro i j hij
    exact hfilled.lower_result_of_lt hij
  · exact permutation_order s.order
  · rw [mul_mk]
    refine congrArg (fun g' => Except.ok (mk m n g')) (Grid.ext_cell ?_)
    intro i j
    rw [Grid.cell_permutation_mul, Grid.cell_ofFn]
    rfl
  · rw [mul_mk]
    refine congrArg (fun g' => Except.ok (mk m n g')) (Grid.ext_cell ?_)
    intro i j
    rw [hfactors.cell_mul_result hfilled, Grid.cell_ofFn]
    rfl

/-- A matrix whose first column has no pivot, and two of whose rows are exchanged after the lower factor
has been filled for both. -/
theorem lu_factors_skip_exchange :
    ∃ (d : LU ℚ 3 4) (product : DenseMatrix ℚ),
      lu 0 ⟨3, 4, ⟨#v[#v[0, 2, 4, 6], #v[0, 4, 8, 5], #v[0, 6, 13, 1]]⟩⟩ = .ok d ∧
      d.order = #v[0, 2, 1] ∧ d.rank = 3 ∧
      mul ⟨3, 3, d.lower⟩ ⟨3, 4, d.upper⟩ = .ok product ∧
      product = ⟨3, 4, ⟨#v[#v[0, 2, 4, 6], #v[0, 6, 13, 1], #v[0, 4, 8, 5]]⟩⟩ := by
  have hval : lu 0 (⟨3, 4, ⟨#v[#v[0, 2, 4, 6], #v[0, 4, 8, 5], #v[0, 6, 13, 1]]⟩⟩ : DenseMatrix ℚ) =
      .ok ⟨⟨#v[#v[1, 0, 0], #v[3, 1, 0], #v[2, 0, 1]]⟩,
        ⟨#v[#v[0, 2, 4, 6], #v[0, 0, 1, -17], #v[0, 0, 0, -7]]⟩, #v[0, 2, 1], 3⟩ := by
    decide +kernel
  obtain ⟨d, hd, -, -, -, -, product, -, -, hmul, hproduct⟩ := lu_factors
    ⟨3, 4, ⟨#v[#v[0, 2, 4, 6], #v[0, 4, 8, 5], #v[0, 6, 13, 1]]⟩⟩ 0 (le_refl 0)
  obtain rfl := Except.ok.inj (hval.symm.trans hd)
  exact ⟨_, product, hval, rfl, rfl, hmul, hproduct⟩

end DenseMatrix

end MatrixCalc
