/-
**What rounding leaves below the pivots.**

Elimination clears a cell below a pivot by subtracting the pivot times the quotient of the two.  With doubles
quotient and product are rounded, so the difference may be a residue other than zero, and nothing overwrites
it.  What remains of a matrix is an echelon form if and only if no round leaves a residue.  A residue never
goes away: its row keeps it wherever the row is exchanged to, and what later rounds subtract from it is a
multiple of zero, unless the row they subtract has such a cell too, and that row stays as it is.

Main definitions:

* `MatrixCalc.Grid.IsStepped` — echelon forms of doubles;
* `MatrixCalc.Elimination.Exact` — a round that leaves no residue;
* `MatrixCalc.Elimination.Stairs` — steps with zeros below them;
* `MatrixCalc.Elimination.Spoiled` — a row with a cell below the step of a row above it.

Main results:

* `MatrixCalc.Elimination.Stairs.round` — a round without residues adds a step;
* `MatrixCalc.Elimination.spoiled_of_round` — a round with a residue spoils the steps;
* `MatrixCalc.Elimination.Spoiled.round` — and no round repairs them;
* `MatrixCalc.DenseMatrix.isStepped_lu_iff` — **the echelon form of doubles**.
-/

import MatrixCalc.Proofs.Dense.Divisors

set_option autoImplicit false

namespace MatrixCalc

/-- Echelon forms of doubles: where a row is zero up to a column, or starts in this column, the rows below it are
zero in the column.  So below the first cell of a row that is not zero all cells are, and a row of zeros has rows
of zeros below it only. -/
def Grid.IsStepped {m n : Nat} (g : Grid Float m n) : Prop :=
  ∀ i k : Fin m, i < k → ∀ j : Fin n, (∀ l, l < j → (g.cell i l == 0) = true) → (g.cell k j == 0) = true

namespace Elimination

variable {m n : Nat}

/-! ### Residues -/

/-- What is left of the cell of the row `i` in the column `c` when it is cleared with the pivot row `p`. -/
def residue (g : Grid Float m n) (p : Fin m) (c : Fin n) (i : Fin m) : Float :=
  g.cell i c - g.cell p c * factor g p c i

/-- The round that comes next leaves zero in each cell that it clears. -/
def Exact (s : Elimination Float m n) : Prop :=
  ∀ (hp : s.pivots < m) (hc : s.column < n) (r : Fin m),
    findPivot? 0 s.upper s.pivots ⟨s.column, hc⟩ = some r →
    ∀ i, needsClearing 0 (s.swap ⟨s.pivots, hp⟩ r).upper ⟨s.pivots, hp⟩ ⟨s.column, hc⟩ i = true →
      (residue (s.swap ⟨s.pivots, hp⟩ r).upper ⟨s.pivots, hp⟩ ⟨s.column, hc⟩ i == 0) = true

section

variable {s : Elimination Float m n} {p i : Fin m} {c j : Fin n}

/-- A row is cleared if it is below the pivot row and its cell is not zero. -/
theorem needsClearing_zero_iff (g : Grid Float m n) :
    needsClearing 0 g p c i = true ↔ p < i ∧ (g.cell i c == 0) = false := by
  rw [needsClearing, Decimal.negligible_zero, Bool.and_eq_true, decide_eq_true_iff, Bool.not_eq_true']

theorem cell_clear (hneeds : needsClearing 0 s.upper p c i = true) :
    (s.clear 0 p c).upper.cell i j = s.upper.cell i j - s.upper.cell p j * factor s.upper p c i := by
  simp only [clear, Grid.cell_ofFn, hneeds, if_true]

theorem cell_clear_of_not (hneeds : needsClearing 0 s.upper p c i = false) :
    (s.clear 0 p c).upper.cell i j = s.upper.cell i j := by
  simp only [clear, Grid.cell_ofFn, hneeds, Bool.false_eq_true, if_false]

/-- Zeros stay where the pivot row is zero too, if no residue is left. -/
theorem zero_clear (hexact : ∀ k, needsClearing 0 s.upper p c k = true → (residue s.upper p c k == 0) = true)
    (hi : (s.upper.cell i j == 0) = true) (hp : (s.upper.cell p j == 0) = true) :
    ((s.clear 0 p c).upper.cell i j == 0) = true := by
  cases hneeds : needsClearing 0 s.upper p c i with
  | true =>
      rw [cell_clear hneeds]
      exact Decimal.sub_mul_zero (hexact i hneeds) hi hp
  | false =>
      rw [cell_clear_of_not hneeds]
      exact hi

/-- The column of the pivot is zero below it, if no residue is left. -/
theorem zero_clear_column
    (hexact : ∀ k, needsClearing 0 s.upper p c k = true → (residue s.upper p c k == 0) = true)
    (hi : p < i) : ((s.clear 0 p c).upper.cell i c == 0) = true := by
  cases hneeds : needsClearing 0 s.upper p c i with
  | true =>
      rw [cell_clear hneeds]
      exact hexact i hneeds
  | false =>
      rw [cell_clear_of_not hneeds]
      by_contra hzero
      rw [(needsClearing_zero_iff s.upper).mpr ⟨hi, Bool.eq_false_iff.mpr hzero⟩] at hneeds
      cases hneeds

end

/-! ### Steps -/

/-- Each row with a pivot has a cell that is not zero, in a column dealt with, and below it only zeros up to this
column; the other rows are zero in the columns dealt with. -/
structure Stairs (s : Elimination Float m n) : Prop where
  /-- The steps, and the zeros below them. -/
  step : ∀ q : Fin m, q.val < s.pivots → ∃ c : Fin n, c.val < s.column ∧ (s.upper.cell q c == 0) = false ∧
    ∀ k, q < k → ∀ j, j ≤ c → (s.upper.cell k j == 0) = true
  /-- The rows without a pivot. -/
  rest : ∀ i : Fin m, s.pivots ≤ i.val → ∀ j : Fin n, j.val < s.column → (s.upper.cell i j == 0) = true

/-- A row has a cell that is not zero in a column where a row with a pivot above it has not begun, or begins. -/
def Spoiled (s : Elimination Float m n) : Prop :=
  ∃ (q k : Fin m) (c : Fin n), q < k ∧ q.val < s.pivots ∧
    (∀ j, j < c → (s.upper.cell q j == 0) = true) ∧ (s.upper.cell k c == 0) = false

theorem cell_swap_upper (s : Elimination Float m n) (a b i : Fin m) (j : Fin n) :
    (s.swap a b).upper.cell i j = s.upper.cell (Grid.swapIndex a b i) j :=
  Grid.cell_swapRows s.upper a b i j

namespace Stairs

variable {s s' : Elimination Float m n}

theorem start (g : Grid Float m n) : Stairs (Elimination.start g) where
  step _ hq := absurd hq (Nat.not_lt_zero _)
  rest _ _ _ hj := absurd hj (Nat.not_lt_zero _)

/-- The pivot row and the rows below it are exchanged among themselves. -/
theorem swap (h : Stairs s) (hp : s.pivots < m) {r : Fin m} (hr : s.pivots ≤ r) :
    Stairs (s.swap ⟨s.pivots, hp⟩ r) where
  step q hq := by
    have hq' : q.val < s.pivots := hq
    obtain ⟨c, hc, hcell, hbelow⟩ := h.step q hq'
    refine ⟨c, hc, ?_, ?_⟩
    · rw [cell_swap_upper, Grid.swapIndex_of_lt (Nat.le_refl _) hr hq']
      exact hcell
    · intro k hqk j hj
      rw [cell_swap_upper]
      refine hbelow _ ?_ j hj
      by_cases hk : k.val < s.pivots
      · rw [Grid.swapIndex_of_lt (Nat.le_refl _) hr hk]
        exact hqk
      · have hle : s.pivots ≤ Grid.swapIndex ⟨s.pivots, hp⟩ r k :=
          Grid.le_swapIndex (Nat.le_refl _) hr (Nat.le_of_not_lt hk)
        exact Fin.lt_def.mpr (Nat.lt_of_lt_of_le hq' hle)
  rest i hi j hj := by
    rw [cell_swap_upper]
    exact h.rest _ (Grid.le_swapIndex (Nat.le_refl _) hr hi) j hj

/-- A column that is zero from the pivot row on can be skipped. -/
theorem skip (h : Stairs s)
    (hzero : ∀ i : Fin m, s.pivots ≤ i → ∀ j : Fin n, j.val = s.column → (s.upper.cell i j == 0) = true) :
    Stairs s.skip where
  step q hq := by
    obtain ⟨c, hc, hcell⟩ := h.step q hq
    exact ⟨c, Nat.lt_succ_of_lt hc, hcell⟩
  rest i hi j hj := by
    have hj' : j.val < s.column + 1 := hj
    rcases Nat.lt_or_eq_of_le (Nat.le_of_lt_succ hj') with hlt | heq
    · exact h.rest i hi j hlt
    · exact hzero i hi j heq

/-- Clearing the column below a pivot adds a step, if no residue is left. -/
theorem clear (h : Stairs s) {p : Fin m} (hp : p.val = s.pivots) {c : Fin n} (hc : c.val = s.column)
    (hpivot : (s.upper.cell p c == 0) = false)
    (hexact : ∀ k, needsClearing 0 s.upper p c k = true → (residue s.upper p c k == 0) = true) :
    Stairs (s.clear 0 p c) := by
  have hcolumn : (s.clear 0 p c).column = s.column + 1 := by
    show s.pivots + 1 + s.skipped = s.pivots + s.skipped + 1
    omega
  -- below the new step there are zeros up to the column of the pivot
  have hbelow : ∀ i, p < i → ∀ j, j ≤ c → ((s.clear 0 p c).upper.cell i j == 0) = true := by
    intro i hi j hj
    rcases eq_or_lt_of_le hj with rfl | hlt
    · exact zero_clear_column hexact hi
    · have hj' : j.val < s.column := hc ▸ Fin.lt_def.mp hlt
      have hi' : s.pivots ≤ i.val := hp ▸ Nat.le_of_lt (Fin.lt_def.mp hi)
      exact zero_clear hexact (h.rest i hi' j hj') (h.rest p (Nat.le_of_eq hp.symm) j hj')
  constructor
  · intro q hq
    have hq' : q.val < s.pivots + 1 := hq
    have hle : q ≤ p := Fin.le_def.mpr (by omega)
    rcases eq_or_lt_of_le hle with rfl | hqp
    · refine ⟨c, by omega, ?_, hbelow⟩
      rw [cell_clear_of_le (le_refl q)]
      exact hpivot
    · obtain ⟨b, hb, hcell, hzeros⟩ := h.step q (hp ▸ Fin.lt_def.mp hqp)
      refine ⟨b, by omega, ?_, ?_⟩
      · rw [cell_clear_of_le hle]
        exact hcell
      · intro k hk j hj
        exact zero_clear hexact (hzeros k hk j hj) (hzeros p hqp j hj)
  · intro i hi j hj
    have hi' : s.pivots + 1 ≤ i.val := hi
    exact hbelow i (Fin.lt_def.mpr (by omega)) j (Fin.le_def.mpr (by omega))

/-- **A round without residues keeps the steps**, and adds one if it finds a pivot. -/
theorem round (h : Stairs s) (hexact : s.Exact) (hround : s.round 0 = .ok s') : Stairs s' := by
  rcases round_cases hround with ⟨rfl, _⟩ | ⟨hc, _, hfind, rfl⟩ | ⟨hp, hc, r, hfind, rfl⟩
  · exact h
  · refine h.skip fun i hi j hj => ?_
    obtain rfl : j = ⟨s.column, hc⟩ := Fin.ext hj
    rw [← Decimal.negligible_zero]
    exact findPivot?_none hfind i hi
  · obtain ⟨hr, hpivot⟩ := findPivot?_some hfind
    rw [Decimal.negligible_zero, ← cell_swap_pivot s ⟨s.pivots, hp⟩] at hpivot
    exact (h.swap hp hr).clear rfl rfl hpivot (hexact hp hc r hfind)

/-- **Steps through all columns or all rows are an echelon form.** -/
theorem isStepped (h : Stairs s) (hdone : m ≤ s.pivots ∨ n ≤ s.column) : s.upper.IsStepped := by
  intro i k hik j hj
  by_cases hi : i.val < s.pivots
  · obtain ⟨c, -, hcell, hbelow⟩ := h.step i hi
    refine hbelow k hik j (not_lt.mp fun hlt => ?_)
    rw [hj c hlt] at hcell
    cases hcell
  · have hk : s.pivots ≤ k.val := Nat.le_trans (Nat.le_of_not_lt hi) (Nat.le_of_lt (Fin.lt_def.mp hik))
    rcases hdone with hrows | hcols
    · omega
    · exact h.rest k hk j (Nat.lt_of_lt_of_le j.isLt hcols)

end Stairs

/-! ### Residues stay -/

section

variable {s s' : Elimination Float m n}

/-- **A round with a residue spoils the steps.** -/
theorem spoiled_of_round (h : Stairs s) (hexact : ¬ s.Exact) (hround : s.round 0 = .ok s') : Spoiled s' := by
  simp only [Exact, not_forall] at hexact
  obtain ⟨hp, hc, r, hfind, i, hneeds, hresidue⟩ := hexact
  have hr := (findPivot?_some hfind).1
  rcases round_cases hround with ⟨-, hdone⟩ | ⟨_, _, hnone, -⟩ | ⟨_, _, r', hfind', rfl⟩
  · exact absurd hdone (not_or.mpr ⟨Nat.not_le_of_lt hp, Nat.not_le_of_lt hc⟩)
  · rw [hfind] at hnone
    cases hnone
  · obtain rfl := Option.some.inj (hfind.symm.trans hfind')
    refine ⟨⟨s.pivots, hp⟩, i, ⟨s.column, hc⟩, ((needsClearing_zero_iff _).mp hneeds).1,
      Nat.lt_succ_self _, ?_, ?_⟩
    · intro j hj
      rw [cell_clear_of_le (le_refl _)]
      exact (h.swap hp hr).rest _ (Nat.le_refl _) j hj
    · rw [cell_clear hneeds]
      exact Bool.eq_false_iff.mpr hresidue

/-- **No round repairs what is spoiled.**  The cell that is not zero goes along if its row is exchanged.  If
its row is cleared with a row that is zero in its column, it stays; otherwise that row is spoiled as well. -/
theorem Spoiled.round (h : Spoiled s) (hround : s.round 0 = .ok s') : Spoiled s' := by
  obtain ⟨q, k, c, hqk, hq, hbefore, hcell⟩ := h
  rcases round_cases hround with ⟨rfl, _⟩ | ⟨_, _, _, rfl⟩ | ⟨hp, hc, r, hfind, rfl⟩
  · exact ⟨q, k, c, hqk, hq, hbefore, hcell⟩
  · exact ⟨q, k, c, hqk, hq, hbefore, hcell⟩
  · have hr := (findPivot?_some hfind).1
    let p : Fin m := ⟨s.pivots, hp⟩
    let b : Fin n := ⟨s.column, hc⟩
    -- the row with a pivot stays as it is
    have hqp : q < p := Fin.lt_def.mpr hq
    have hrow : ∀ j, ((s.swap p r).clear 0 p b).upper.cell q j = s.upper.cell q j := by
      intro j
      rw [cell_clear_of_le (le_of_lt hqp), cell_swap_upper, Grid.swapIndex_of_lt (Nat.le_refl _) hr hq]
    have hq' : q.val < s.pivots + 1 := Nat.lt_succ_of_lt hq
    have hbefore' : ∀ j, j < c → (((s.swap p r).clear 0 p b).upper.cell q j == 0) = true := by
      intro j hj
      rw [hrow]
      exact hbefore j hj
    -- where the other row comes to be
    obtain ⟨k', hqk', hcell'⟩ : ∃ k', q < k' ∧ ((s.swap p r).upper.cell k' c == 0) = false := by
      refine ⟨Grid.swapIndex p r k, ?_, ?_⟩
      · by_cases hk : k.val < s.pivots
        · rw [Grid.swapIndex_of_lt (Nat.le_refl _) hr hk]
          exact hqk
        · have hle : s.pivots ≤ Grid.swapIndex p r k :=
            Grid.le_swapIndex (Nat.le_refl _) hr (Nat.le_of_not_lt hk)
          exact Fin.lt_def.mpr (Nat.lt_of_lt_of_le hq hle)
      · rw [cell_swap_upper, Grid.swapIndex_swapIndex]
        exact hcell
    cases hzero : (s.swap p r).upper.cell p c == 0 with
    | false =>
        refine ⟨q, p, c, hqp, hq', hbefore', ?_⟩
        rw [cell_clear_of_le (le_refl p)]
        exact hzero
    | true =>
        refine ⟨q, k', c, hqk', hq', hbefore', ?_⟩
        cases hneeds : needsClearing 0 (s.swap p r).upper p b k' with
        | true =>
            rw [cell_clear hneeds]
            exact Decimal.sub_mul_ne_zero hcell' hzero _
        | false =>
            rw [cell_clear_of_not hneeds]
            exact hcell'

/-- What is spoiled is no echelon form. -/
theorem Spoiled.not_isStepped (h : Spoiled s) : ¬ s.upper.IsStepped := by
  obtain ⟨q, k, c, hqk, -, hbefore, hcell⟩ := h
  intro hstepped
  rw [hstepped q k hqk c hbefore] at hcell
  cases hcell

/-- Rounds without residues lead to steps; with a residue in one of them what remains is spoiled.  By
induction on the rounds: until the first residue there are steps, from then on it stays. -/
theorem stairs_or_spoiled (g : Grid Float m n) : ∀ (k : Nat) {s' : Elimination Float m n},
    rounds 0 k (.start g) = .ok s' →
    ((∀ l, l < k → ∀ s, rounds 0 l (.start g) = .ok s → s.Exact) ∧ Stairs s') ∨
    ((∃ l s, l < k ∧ rounds 0 l (.start g) = .ok s ∧ ¬ s.Exact) ∧ Spoiled s') := by
  intro k
  induction k with
  | zero =>
      intro s' h
      obtain rfl := Except.ok.inj h
      exact .inl ⟨fun l hl => absurd hl (Nat.not_lt_zero l), .start g⟩
  | succ k ih =>
      intro s' h
      obtain ⟨t, ht, hround⟩ := rounds_succ_last h
      rcases ih ht with ⟨hexact, hstairs⟩ | ⟨⟨l, s, hl, hs, hnot⟩, hspoiled⟩
      · by_cases hlast : t.Exact
        · refine .inl ⟨fun l hl s hs => ?_, hstairs.round hlast hround⟩
          rcases Nat.lt_or_eq_of_le (Nat.le_of_lt_succ hl) with hlt | rfl
          · exact hexact l hlt s hs
          · obtain rfl := Except.ok.inj (ht.symm.trans hs)
            exact hlast
        · exact .inr ⟨⟨k, t, Nat.lt_succ_self k, ht, hlast⟩, spoiled_of_round hstairs hlast hround⟩
      · exact .inr ⟨⟨l, s, Nat.lt_succ_of_lt hl, hs, hnot⟩, hspoiled.round hround⟩

end

end Elimination

/-! ### The echelon form -/

namespace DenseMatrix

/-- **The echelon form of doubles.**  Without a tolerance every matrix of doubles has a decomposition.  Its upper
factor is an echelon form if and only if no round leaves a residue, which is the case if the difference between
each cell that is cleared, and the pivot times their quotient, is rounded to zero. -/
theorem isStepped_lu_iff (a : DenseMatrix Float) :
    ∃ d : LU Float a.nrows a.ncols, a.lu 0 = .ok d ∧
      (d.upper.IsStepped ↔ ∀ k, k < a.ncols → ∀ s : Elimination Float a.nrows a.ncols,
        Elimination.rounds 0 k (.start a.grid) = .ok s → s.Exact) := by
  obtain ⟨m, n, g⟩ := a
  have hzero : (0 : Float) ≤ 0 := by decide
  obtain ⟨s, hs, hlu⟩ := g.lu_eq_of_guards (Numeric.guards_of_le hzero)
  have hdone : m ≤ s.pivots ∨ n ≤ s.column := by
    rcases Elimination.rounds_done n hs with hdone | hcolumn
    · exact hdone
    · exact .inr (by omega)
  refine ⟨s.result, hlu, ?_⟩
  rcases Elimination.stairs_or_spoiled g n hs with ⟨hexact, hstairs⟩ | ⟨⟨l, t, hl, ht, hnot⟩, hspoiled⟩
  · exact iff_of_true (hstairs.isStepped hdone) hexact
  · exact iff_of_false hspoiled.not_isStepped fun hexact => hnot (hexact l hl t ht)

/-- Not every quotient gives the cell back: `49 * (1 / 49)` is below one, and the difference stays below the pivot
of a matrix with a single column. -/
theorem not_isStepped_lu :
    ∃ d : LU Float 2 1, lu 0 ⟨2, 1, ⟨#v[#v[49], #v[1]]⟩⟩ = .ok d ∧
      (∀ i j, (d.lower.cell i j).isFinite = true) ∧ (∀ i j, (d.upper.cell i j).isFinite = true) ∧
      (d.upper.cell 0 0 == 49) = true ∧ (d.upper.cell 1 0 == 0) = false ∧ ¬ d.upper.IsStepped := by
  have hval : lu 0 (⟨2, 1, ⟨#v[#v[49], #v[1]]⟩⟩ : DenseMatrix Float) =
      .ok ⟨⟨#v[#v[1, 0], #v[1 / 49, 1]]⟩, ⟨#v[#v[49], #v[1 - 49 * (1 / 49)]]⟩, #v[0, 1], 1⟩ := by
    decide +kernel
  have hresidue : ((1 - 49 * (1 / 49) : Float) == 0) = false := by
    decide +kernel
  refine ⟨_, hval, by decide +kernel, by decide +kernel, by decide +kernel, hresidue, fun hstepped => ?_⟩
  have hcell := hstepped 0 1 (by decide) 0 fun l hl => absurd hl (Fin.not_lt_zero l)
  exact Bool.false_ne_true (hresidue.symm.trans hcell)

end DenseMatrix

end MatrixCalc
