/-
**The inverse.**

Inversion does the same operations on the rows of a grid and of the identity.  Read with exact numbers,
setting cells to one and zero changes nothing, and so the two are kept in step: what the identity has
become, times the grid, is what the grid has become.  The columns dealt with are those of the identity,
and so all are at the end.  Operations on rows keep the vectors that a grid takes to zero; a column
without a pivot depends on the columns before it and gives such a vector.

Main definitions:

* `MatrixCalc.Grid.RowOperation` — an operation on rows that can be undone;
* `MatrixCalc.Inversion.Reduces` — the two grids are in step, and some columns are reduced.

Main results:

* `MatrixCalc.Inversion.rounds_cases` — inversion ends with the identity, or the grid is singular;
* `MatrixCalc.Grid.inverse?_cases` — the same for the inverse of a grid;
* `MatrixCalc.DenseMatrix.inverse?_eq_none_iff` — which matrices have no inverse;
* `MatrixCalc.Value.mul_div_cancel` — a quotient times the divisor;
* `MatrixCalc.DenseMatrix.inverse_correct` — **the inverse and the quotient**.
-/

import MatrixCalc.Proofs.Dense.Echelon

set_option autoImplicit false

namespace MatrixCalc

open Matrix

/-! ### Operations on rows -/

namespace Grid

variable {n : Nat}

/-- An operation on the rows of a grid: it can be done before or after a multiplication from the right,
and a grid takes no more vectors to zero after it. -/
structure RowOperation (f : Grid ℚ n n → Grid ℚ n n) : Prop where
  /-- It can be done before or after a multiplication. -/
  mul : ∀ g h : Grid ℚ n n, (f g).mul h = f (g.mul h)
  /-- No more vectors are taken to zero after it. -/
  kernel : ∀ (g : Grid ℚ n n) (v : Fin n → ℚ), (f g).toMatrix *ᵥ v = 0 → g.toMatrix *ᵥ v = 0

/-- A vector is taken to zero if each row is. -/
theorem mulVec_eq_zero_iff {g : Grid ℚ n n} {v : Fin n → ℚ} :
    g.toMatrix *ᵥ v = 0 ↔ ∀ i, ∑ j, g.cell i j * v j = 0 := by
  constructor
  · intro h i
    exact congrFun h i
  · intro h
    funext i
    exact h i

theorem rowOperation_swapRows (a b : Fin n) : RowOperation fun g => g.swapRows a b where
  mul g h := by
    apply ext_cell
    intro i j
    simp only [cell_mul_eq_sum, cell_swapRows]
  kernel g v h := by
    rw [mulVec_eq_zero_iff] at h ⊢
    intro i
    have hi := h (swapIndex a b i)
    simpa only [cell_swapRows, swapIndex_swapIndex] using hi

theorem rowOperation_scaleRow (p : Fin n) {x : ℚ} (hx : x ≠ 0) :
    RowOperation fun g => Inversion.scaleRow g p x where
  mul g h := by
    apply ext_cell
    intro i j
    simp only [Inversion.scaleRow, cell_mul_eq_sum, cell_ofFn]
    split
    · rw [Finset.sum_mul]
      refine Finset.sum_congr rfl ?_
      intro l _
      ring
    · rfl
  kernel g v h := by
    rw [mulVec_eq_zero_iff] at h ⊢
    intro i
    have hi := h i
    simp only [Inversion.scaleRow, cell_ofFn] at hi
    split at hi
    · have hfactor : (∑ j, g.cell i j * v j) * x = 0 := by
        rw [← hi, Finset.sum_mul]
        refine Finset.sum_congr rfl ?_
        intro j _
        ring
      exact (mul_eq_zero.mp hfactor).resolve_right hx
    · exact hi

theorem rowOperation_clearRows (p : Fin n) (multiple : Fin n → ℚ) :
    RowOperation fun g => Inversion.clearRows g p multiple where
  mul g h := by
    apply ext_cell
    intro i j
    simp only [Inversion.clearRows, cell_mul_eq_sum, cell_ofFn]
    split
    · rfl
    · rw [Finset.sum_mul, ← Finset.sum_sub_distrib]
      refine Finset.sum_congr rfl ?_
      intro l _
      ring
  kernel g v h := by
    rw [mulVec_eq_zero_iff] at h ⊢
    -- the row that is subtracted stays
    have hp : ∑ j, g.cell p j * v j = 0 := by
      have hp' := h p
      simpa only [Inversion.clearRows, cell_ofFn, if_true] using hp'
    intro i
    have hi := h i
    simp only [Inversion.clearRows, cell_ofFn] at hi
    split at hi
    · exact hi
    · calc ∑ j, g.cell i j * v j
          = ∑ j, (g.cell i j - g.cell p j * multiple i) * v j +
              (∑ j, g.cell p j * v j) * multiple i := by
            rw [Finset.sum_mul, ← Finset.sum_add_distrib]
            refine Finset.sum_congr rfl ?_
            intro j _
            ring
        _ = 0 := by rw [hi, hp, zero_mul, add_zero]

end Grid

namespace Inversion

variable {n : Nat} {tolerance : ℚ}

/-! ### The two grids in step -/

/-- The two grids have come from the grid and from the identity by the same operations on rows, and the
first `p` columns are reduced. -/
structure Reduces (g : Grid ℚ n n) (p : Nat) (s : Inversion ℚ n) : Prop where
  /-- What the identity has become, times the grid, is what the grid has become. -/
  product : s.inverse.mul g = s.work
  /-- What the grid has become takes no vectors to zero that the grid does not. -/
  kernel : ∀ v : Fin n → ℚ, s.work.toMatrix *ᵥ v = 0 → g.toMatrix *ᵥ v = 0
  /-- Columns dealt with are those of the identity. -/
  column : ∀ i j : Fin n, j.val < p → s.work.cell i j = if i = j then 1 else 0

/-- Setting the pivot to one changes nothing. -/
theorem scale_eq {s : Inversion ℚ n} {p : Fin n} (h : s.work.cell p p ≠ 0) :
    s.scale p = ⟨scaleRow s.work p (1 / s.work.cell p p),
      scaleRow s.inverse p (1 / s.work.cell p p)⟩ := by
  have hwork : (scaleRow s.work p (1 / s.work.cell p p)).set p p 1 =
      scaleRow s.work p (1 / s.work.cell p p) := by
    apply Grid.ext_cell
    intro i j
    rw [Grid.cell_set]
    split
    · rename_i hij
      obtain ⟨rfl, rfl⟩ := hij
      simp only [scaleRow, Grid.cell_ofFn, if_true]
      rw [mul_one_div_cancel h]
    · rfl
  simp only [scale, hwork]

/-- Setting the cells of the column to zero changes nothing. -/
theorem clear_eq {s : Inversion ℚ n} {p : Fin n} (h : s.work.cell p p = 1) :
    s.clear p = ⟨clearRows s.work p fun i => s.work.cell i p,
      clearRows s.inverse p fun i => s.work.cell i p⟩ := by
  have hwork : Grid.ofFn (fun i j => if i ≠ p ∧ j = p then 0
      else (clearRows s.work p fun i => s.work.cell i p).cell i j) =
      clearRows s.work p fun i => s.work.cell i p := by
    apply Grid.ext_cell
    intro i j
    rw [Grid.cell_ofFn]
    split
    · rename_i hij
      obtain ⟨hi, rfl⟩ := hij
      simp only [clearRows, Grid.cell_ofFn, if_neg hi]
      rw [h, one_mul, sub_self]
    · rfl
  simp only [clear, hwork]

namespace Reduces

variable {g : Grid ℚ n n} {s : Inversion ℚ n}

theorem start (g : Grid ℚ n n) : Reduces g 0 (Inversion.start g) where
  product := by
    apply Grid.toMatrix_injective
    show (Grid.mul (Grid.identity ℚ n n) g).toMatrix = g.toMatrix
    rw [Grid.toMatrix_mul, Grid.toMatrix_identity, one_mul]
  kernel v h := h
  column i j hj := absurd hj (Nat.not_lt_zero _)

/-- An operation on the rows of both grids keeps them in step. -/
theorem of_rowOperation {p q : Nat} (h : Reduces g p s) {f : Grid ℚ n n → Grid ℚ n n}
    (hf : Grid.RowOperation f)
    (hcolumn : ∀ i j : Fin n, j.val < q → (f s.work).cell i j = if i = j then 1 else 0) :
    Reduces g q ⟨f s.work, f s.inverse⟩ where
  product := by rw [hf.mul, h.product]
  kernel v hv := h.kernel v (hf.kernel s.work v hv)
  column := hcolumn

theorem swap {p r : Fin n} (h : Reduces g p s) (hr : p ≤ r) : Reduces g p (s.swap p r) := by
  refine h.of_rowOperation (Grid.rowOperation_swapRows p r) ?_
  intro i j hj
  -- rows of columns dealt with stay where they are
  have hstay : Grid.swapIndex p r j = j := Grid.swapIndex_of_lt (le_refl _) hr hj
  have hiff : Grid.swapIndex p r i = j ↔ i = j := by
    rw [← (Grid.swapIndex_injective p r).eq_iff, Grid.swapIndex_swapIndex, hstay]
  rw [Grid.cell_swapRows, h.column _ j hj]
  simp only [hiff]

theorem scale {p : Fin n} (h : Reduces g p s) (hpivot : s.work.cell p p ≠ 0) :
    Reduces g p (s.scale p) ∧ (s.scale p).work.cell p p = 1 := by
  rw [scale_eq hpivot]
  refine ⟨h.of_rowOperation (Grid.rowOperation_scaleRow p (one_div_ne_zero hpivot)) ?_, ?_⟩
  · intro i j hj
    simp only [scaleRow, Grid.cell_ofFn, h.column i j hj]
    split
    · rename_i hip
      have hne : i ≠ j := by
        rw [hip]
        exact (Fin.ne_of_lt hj).symm
      rw [if_neg hne, zero_mul]
    · rfl
  · simp only [scaleRow, Grid.cell_ofFn, if_true]
    exact mul_one_div_cancel hpivot

theorem clear {p : Fin n} (h : Reduces g p s) (hpivot : s.work.cell p p = 1) :
    Reduces g (p.val + 1) (s.clear p) := by
  rw [clear_eq hpivot]
  refine h.of_rowOperation (Grid.rowOperation_clearRows p fun i => s.work.cell i p) ?_
  intro i j hj
  simp only [clearRows, Grid.cell_ofFn]
  rcases Nat.lt_or_eq_of_le (Nat.le_of_lt_succ hj) with hold | hnew
  · have hne : p ≠ j := (Fin.ne_of_lt hold).symm
    have hzero : s.work.cell p j = 0 := by rw [h.column p j hold, if_neg hne]
    rw [hzero, zero_mul, sub_zero, ite_self]
    exact h.column i j hold
  · obtain rfl : j = p := Fin.ext hnew
    by_cases hij : i = j
    · rw [if_pos hij, if_pos hij, hij, hpivot]
    · rw [if_neg hij, if_neg hij, hpivot, one_mul, sub_self]

/-- **A column that is zero from the diagonal on makes the grid singular.**  It depends on the columns
before it, which are those of the identity. -/
theorem det_eq_zero {p : Fin n} (h : Reduces g p s) (hzero : ∀ i, p ≤ i → s.work.cell i p = 0) :
    g.toMatrix.det = 0 := by
  -- the column itself, less what the columns before it make up of it
  let v : Fin n → ℚ := fun j => if j < p then -s.work.cell j p else if j = p then 1 else 0
  have hv : v ≠ 0 := by
    intro hv
    have hp := congrFun hv p
    simp [v] at hp
  have hkernel : s.work.toMatrix *ᵥ v = 0 := by
    rw [Grid.mulVec_eq_zero_iff]
    intro i
    have hterm : ∀ j, s.work.cell i j * v j =
        (if j = i then if i < p then -s.work.cell i p else 0 else 0) +
          (if j = p then s.work.cell i p else 0) := by
      intro j
      rcases lt_trichotomy j p with hlt | rfl | hgt
      · have hne : j ≠ p := hlt.ne
        simp only [v, if_pos hlt, if_neg hne, add_zero, h.column i j hlt]
        by_cases hij : i = j
        · subst hij
          simp [hlt]
        · simp [hij, Ne.symm hij]
      · by_cases hij : j = i
        · subst hij
          simp [v]
        · simp [v, hij]
      · have hne : j ≠ p := hgt.ne'
        by_cases hij : j = i
        · subst hij
          simp [v, hne, hgt.asymm]
        · simp [v, hne, hij, hgt.asymm]
    rw [Finset.sum_congr rfl fun j _ => hterm j, Finset.sum_add_distrib, Finset.sum_ite_eq',
      Finset.sum_ite_eq', if_pos (Finset.mem_univ i), if_pos (Finset.mem_univ p)]
    by_cases hi : i < p
    · rw [if_pos hi, neg_add_cancel]
    · rw [if_neg hi, hzero i (not_lt.mp hi), add_zero]
  exact Matrix.exists_mulVec_eq_zero_iff.mp ⟨v, hv, h.kernel v hkernel⟩

end Reduces

/-! ### Rounds of inversion -/

/-- A round reduces the next column, unless that has no pivot. -/
theorem round_cases (h : 0 ≤ tolerance) {g : Grid ℚ n n} {s : Inversion ℚ n} {p : Fin n}
    (hs : Reduces g p s) :
    (s.round tolerance p = .ok none ∧
      ∀ i, p ≤ i → Numeric.negligible tolerance (s.work.cell i p) = true) ∨
    ∃ s', s.round tolerance p = .ok (some s') ∧ Reduces g (p.val + 1) s' := by
  unfold round
  cases hfind : Elimination.findPivot? tolerance s.work p p with
  | none => exact .inl ⟨rfl, fun i hi => Elimination.findPivot?_none hfind i hi⟩
  | some r =>
      obtain ⟨hr, hnegligible⟩ := Elimination.findPivot?_some hfind
      have hpivot : (s.swap p r).work.cell p p ≠ 0 := by
        show (s.work.swapRows p r).cell p p ≠ 0
        rw [Grid.cell_swapRows, Grid.swapIndex_left]
        exact ne_zero_of_not_negligible h hnegligible
      obtain ⟨hscale, hone⟩ := (hs.swap hr).scale hpivot
      refine .inr ⟨((s.swap p r).scale p).clear p, ?_, hscale.clear hone⟩
      simp only [isDivisor_iff.mpr hpivot, if_true]

/-- **Inversion ends with the identity, or at a column without a pivot**; without a tolerance the grid is
singular then. -/
theorem rounds_cases (h : 0 ≤ tolerance) {g : Grid ℚ n n} : ∀ (ps : List (Fin n)) (p : Nat)
    {s : Inversion ℚ n}, (List.finRange n).drop p = ps → Reduces g p s →
    (rounds tolerance ps s = .ok none ∧ (tolerance = 0 → g.toMatrix.det = 0)) ∨
    ∃ s', rounds tolerance ps s = .ok (some s') ∧ Reduces g n s' := by
  intro ps
  induction ps with
  | nil =>
      intro p s hdrop hs
      have hle : n ≤ p := by simpa using List.drop_eq_nil_iff.mp hdrop
      exact .inr ⟨s, rfl, hs.product, hs.kernel, fun i j hj => hs.column i j (lt_of_lt_of_le hj hle)⟩
  | cons q ps ih =>
      intro p s hdrop hs
      have hlt : p < n := by
        have hlength := congrArg List.length hdrop
        simp only [List.length_drop, List.length_finRange, List.length_cons] at hlength
        omega
      rw [List.drop_eq_getElem_cons (by simpa using hlt)] at hdrop
      obtain ⟨hq, hps⟩ := List.cons.inj hdrop
      obtain rfl : p = q.val := by
        rw [← hq]
        simp
      rw [rounds]
      rcases round_cases h hs with ⟨hround, hnone⟩ | ⟨s', hround, hs'⟩
      · -- a column without a pivot ends the rounds
        rw [hround]
        refine .inl ⟨rfl, ?_⟩
        rintro rfl
        exact hs.det_eq_zero fun i hi => negligible_zero_iff.mp (hnone i hi)
      · rw [hround]
        exact ih (q.val + 1) hps hs'

/-- At the end the grid has become the identity. -/
theorem Reduces.work_eq {g : Grid ℚ n n} {s : Inversion ℚ n} (h : Reduces g n s) :
    s.work = Grid.identity ℚ n n := by
  apply Grid.ext_cell
  intro i j
  rw [h.column i j j.isLt, Grid.cell_identity]
  simp only [Fin.ext_iff]

/-- The identity passes the check on the last row, unless it has none. -/
theorem Reduces.lastRowReduced (h : 0 ≤ tolerance) {g : Grid ℚ n n} {s : Inversion ℚ n}
    (hs : Reduces g n s) (hn : 0 < n) : s.lastRowReduced tolerance = true := by
  have hnegligible : Numeric.negligible tolerance (0 : ℚ) = true := by
    rw [negligible_iff, abs_zero]
    exact h
  have hexcessive : Numeric.excessive tolerance (0 : ℚ) = false := by
    show decide (tolerance < |0|) = false
    rw [abs_zero]
    exact decide_eq_false (not_lt.mpr h)
  obtain ⟨k, rfl⟩ : ∃ k, n = k + 1 := ⟨n - 1, by omega⟩
  have hdiag : s.work.cell (Fin.last k) (Fin.last k) - 1 = 0 := by
    rw [hs.column _ _ (Fin.last k).isLt, if_pos rfl, sub_self]
  simp only [Inversion.lastRowReduced, hdiag, hexcessive, Bool.not_false, Bool.true_and,
    List.all_eq_true]
  intro j _
  by_cases hj : j = Fin.last k
  · simp [hj]
  · rw [hs.column _ j j.isLt, if_neg (Ne.symm hj), hnegligible, Bool.or_true]

end Inversion

/-! ### The inverse -/

/-- **There is an inverse on both sides, or none is found**; without a tolerance the grid is singular
then, or empty. -/
theorem Grid.inverse?_cases {n : Nat} {tolerance : ℚ} (h : 0 ≤ tolerance) (g : Grid ℚ n n) :
    (g.inverse? tolerance = .ok none ∧ (tolerance = 0 → 0 < n → g.toMatrix.det = 0)) ∨
    ∃ b, g.inverse? tolerance = .ok (some b) ∧
      g.mul b = Grid.identity ℚ n n ∧ b.mul g = Grid.identity ℚ n n := by
  unfold Grid.inverse?
  rcases Inversion.rounds_cases h (List.finRange n) 0 List.drop_zero (Inversion.Reduces.start g) with
    ⟨hrounds, hdet⟩ | ⟨s, hrounds, hs⟩
  · rw [hrounds]
    exact .inl ⟨rfl, fun htolerance _ => hdet htolerance⟩
  · rw [hrounds]
    rcases Nat.eq_zero_or_pos n with rfl | hn
    · exact .inl ⟨rfl, fun _ hn => absurd hn (lt_irrefl 0)⟩
    · have hleft : s.inverse.mul g = Grid.identity ℚ n n := by rw [hs.product, hs.work_eq]
      have hmatrix : s.inverse.toMatrix * g.toMatrix = 1 := by
        rw [← Grid.toMatrix_mul, hleft, Grid.toMatrix_identity]
      refine .inr ⟨s.inverse, ?_, ?_, hleft⟩
      · simp [Except.map, hs.lastRowReduced h hn]
      · apply Grid.toMatrix_injective
        rw [Grid.toMatrix_mul, Grid.toMatrix_identity]
        exact mul_eq_one_comm.mp hmatrix

namespace DenseMatrix

theorem inverse?_mk {α : Type} [Zero α] [One α] [Sub α] [Mul α] [Div α] [Numeric α] (tolerance : α)
    {n : Nat} (g : Grid α n n) : inverse? tolerance ⟨n, n, g⟩ =
      (g.inverse? tolerance).map fun found => found.map fun b => ⟨n, n, b⟩ := by
  simp only [inverse?, onSquare?, dif_pos, Grid.cast_rfl]
  cases g.inverse? tolerance with
  | error e => rfl
  | ok found => rfl

end DenseMatrix

theorem Value.mul_mk {α : Type} [Zero α] [Add α] [Mul α] {m k n : Nat} (g : Grid α m k) (h : Grid α k n) :
    Value.mul (.matrix ⟨m, k, g⟩) (.matrix ⟨k, n, h⟩) = .ok (.matrix ⟨m, n, g.mul h⟩) := by
  simp [Value.mul, Value.combine, DenseMatrix.shape, DenseMatrix.mul_mk, Except.mapError, Except.map]

/-- A quotient of matrices is the product with an inverse that was found. -/
theorem Value.div_matrix_ok {α : Type} [Zero α] [One α] [Add α] [Sub α] [Mul α] [Div α] [Numeric α]
    {tolerance : α} {n : Nat} {g : Grid α n n} {x : DenseMatrix α} {y : Value α}
    (h : Value.div tolerance (.matrix x) (.matrix ⟨n, n, g⟩) = .ok y) :
    ∃ (gx b : Grid α n n), x = ⟨n, n, gx⟩ ∧ g.inverse? tolerance = .ok (some b) ∧
      y = .matrix ⟨n, n, gx.mul b⟩ := by
  obtain ⟨m, n', gx⟩ := x
  simp only [Value.div, Value.combine, Value.divMatrix, DenseMatrix.inverse?_mk] at h
  split at h
  · rename_i hshape
    have hsame : m = n ∧ n' = n := by
      simpa [DenseMatrix.shape, Shape.isSquare] using hshape
    obtain ⟨rfl, rfl⟩ := hsame
    cases hinverse : g.inverse? tolerance with
    | error e =>
        rw [hinverse] at h
        cases h
    | ok found =>
        cases found with
        | none =>
            rw [hinverse] at h
            cases h
        | some b =>
            rw [hinverse] at h
            refine ⟨gx, b, rfl, rfl, ?_⟩
            simp only [Except.map, Option.map, DenseMatrix.mul_mk, Except.mapError] at h
            exact (Except.ok.inj h).symm
  · cases h

namespace DenseMatrix

/-- An inverse that is found has the shape of the matrix and is inverse to it on both sides. -/
theorem inverse?_ok {n : Nat} {tolerance : ℚ} (h : 0 ≤ tolerance) (g : Grid ℚ n n) :
    ∃ found, inverse? tolerance ⟨n, n, g⟩ = .ok found ∧ ∀ b, found = some b →
      b.shape = ⟨n, n⟩ ∧ mul ⟨n, n, g⟩ b = identity n n ∧ mul b ⟨n, n, g⟩ = identity n n := by
  rw [inverse?_mk]
  rcases g.inverse?_cases h with ⟨hnone, -⟩ | ⟨b, hsome, hright, hleft⟩
  · rw [hnone]
    exact ⟨none, rfl, fun b hb => nomatch hb⟩
  · rw [hsome]
    refine ⟨some ⟨n, n, b⟩, rfl, ?_⟩
    rintro b' hb'
    obtain rfl := Option.some.inj hb'
    refine ⟨rfl, ?_, ?_⟩
    · rw [mul_mk, hright, identity_mk]
    · rw [mul_mk, hleft, identity_mk]

/-- Without a tolerance, a matrix that is not empty has no inverse just if its determinant is zero. -/
theorem inverse?_eq_none_iff {n : Nat} (g : Grid ℚ n n) (hn : 0 < n) :
    inverse? 0 ⟨n, n, g⟩ = .ok none ↔ g.toMatrix.det = 0 := by
  rw [inverse?_mk]
  rcases g.inverse?_cases (le_refl 0) with ⟨hnone, hsingular⟩ | ⟨b, hsome, hright, -⟩
  · rw [hnone]
    exact ⟨fun _ => hsingular rfl hn, fun _ => rfl⟩
  · rw [hsome]
    constructor
    · intro hnone
      exact absurd (Except.ok.inj hnone) (Option.some_ne_none _)
    · -- the determinants of the two have the product one
      intro hdet
      have hone := congrArg (fun g' => g'.toMatrix.det) hright
      simp only [Grid.toMatrix_mul, Grid.toMatrix_identity, Matrix.det_mul, Matrix.det_one, hdet,
        zero_mul] at hone
      exact absurd hone zero_ne_one

end DenseMatrix

/-- A quotient by a matrix, times the matrix, is the dividend. -/
theorem Value.mul_div_cancel {n : Nat} {tolerance : ℚ} (h : 0 ≤ tolerance) {g : Grid ℚ n n}
    {x : DenseMatrix ℚ} {y : Value ℚ}
    (hdiv : Value.div tolerance (.matrix x) (.matrix ⟨n, n, g⟩) = .ok y) :
    Value.mul y (.matrix ⟨n, n, g⟩) = .ok (.matrix x) := by
  obtain ⟨gx, b, rfl, hinverse, rfl⟩ := Value.div_matrix_ok hdiv
  rcases g.inverse?_cases h with ⟨hnone, -⟩ | ⟨b', hsome, -, hleft⟩
  · rw [hinverse] at hnone
    nomatch hnone
  · rw [hinverse] at hsome
    obtain rfl := Option.some.inj (Except.ok.inj hsome)
    have hgrid : (gx.mul b).mul g = gx := by
      apply Grid.toMatrix_injective
      rw [Grid.toMatrix_mul, Grid.toMatrix_mul, Matrix.mul_assoc, ← Grid.toMatrix_mul, hleft,
        Grid.toMatrix_identity, Matrix.mul_one]
    rw [Value.mul_mk, hgrid]

namespace DenseMatrix

/-- **The inverse and the quotient.**  An inverse that is found has the shape of the matrix and is
inverse to it on both sides; without a tolerance, none is found for a matrix that is not empty just if
its determinant is zero, which is just if the rank that elimination counts is too small.  A quotient by
the matrix, times the matrix, is the dividend. -/
theorem inverse_correct {n : Nat} (g : Grid ℚ n n) (tolerance : ℚ) (h : 0 ≤ tolerance) :
    (∃ found, inverse? tolerance ⟨n, n, g⟩ = .ok found ∧ ∀ b, found = some b →
      b.shape = ⟨n, n⟩ ∧ mul ⟨n, n, g⟩ b = identity n n ∧ mul b ⟨n, n, g⟩ = identity n n) ∧
    (0 < n →
      (inverse? 0 ⟨n, n, g⟩ = .ok none ↔ g.toMatrix.det = 0) ∧
      (inverse? 0 ⟨n, n, g⟩ = .ok none ↔ ∃ d, lu 0 ⟨n, n, g⟩ = .ok d ∧ d.rank < n)) ∧
    ∀ (x : DenseMatrix ℚ) (y : Value ℚ), Value.div tolerance (.matrix x) (.matrix ⟨n, n, g⟩) = .ok y →
      Value.mul y (.matrix ⟨n, n, g⟩) = .ok (.matrix x) := by
  refine ⟨inverse?_ok h g, ?_, ?_⟩
  · intro hn
    have hdet := inverse?_eq_none_iff g hn
    exact ⟨hdet, hdet.trans g.rank_lu_lt_iff.symm⟩
  · intro x y hdiv
    exact Value.mul_div_cancel h hdiv

/-- A matrix whose rows are exchanged on the way to its inverse. -/
theorem inverse_correct_exchange :
    ∃ b : DenseMatrix ℚ, inverse? 0 ⟨2, 2, ⟨#v[#v[0, 2], #v[1, 3]]⟩⟩ = .ok (some b) ∧
      b = ⟨2, 2, ⟨#v[#v[-3 / 2, 1], #v[1 / 2, 0]]⟩⟩ ∧
      mul ⟨2, 2, ⟨#v[#v[0, 2], #v[1, 3]]⟩⟩ b = identity 2 2 ∧
      mul b ⟨2, 2, ⟨#v[#v[0, 2], #v[1, 3]]⟩⟩ = identity 2 2 := by
  have hval : Grid.inverse? 0 (⟨#v[#v[0, 2], #v[1, 3]]⟩ : Grid ℚ 2 2) =
      .ok (some ⟨#v[#v[-3 / 2, 1], #v[1 / 2, 0]]⟩) := by
    decide +kernel
  obtain ⟨⟨found, hfound, hinverse⟩, -, -⟩ :=
    inverse_correct (⟨#v[#v[0, 2], #v[1, 3]]⟩ : Grid ℚ 2 2) 0 (le_refl 0)
  rw [inverse?_mk, hval] at hfound
  obtain ⟨-, hright, hleft⟩ := hinverse _ (Except.ok.inj hfound).symm
  refine ⟨_, ?_, rfl, hright, hleft⟩
  rw [inverse?_mk, hval]
  rfl

end DenseMatrix

end MatrixCalc
