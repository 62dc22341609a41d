/-
**Rounds of elimination, whatever the arithmetic.**

A round ends, skips the column, or exchanges two rows and clears the column below the pivot row; that is
all it can do.  So what every round preserves is preserved by elimination as a whole.  The multiples stand
below the diagonal, in the columns of the pivots that have been found, and elsewhere the lower factor is
zero; each row comes from another row of the grid.  None of this depends on what the operations on cells
give.

Main definitions:

* `MatrixCalc.Numeric.Guards` — what does not count as zero may be divided by;
* `MatrixCalc.Elimination.Filled` — where the lower factor is filled, and that the rows are permuted.

Main results:

* `MatrixCalc.Elimination.round_cases` — what a round can do;
* `MatrixCalc.Elimination.rounds_preserves` — what every round preserves, several do;
* `MatrixCalc.Elimination.rounds_done` — enough rounds reach the last column or the last row;
* `MatrixCalc.Grid.lu_eq_of_guards` — there is a decomposition if pivots may be divided by;
* `MatrixCalc.Elimination.Filled.rounds` — **the lower factor is filled below the diagonal only**;
* `MatrixCalc.Elimination.Filled.rank_result` — the rank is the number of pivots.
-/

import Mathlib
import MatrixCalc.Dense.Elimination

set_option autoImplicit false

namespace MatrixCalc

/-- What does not count as zero may be divided by. -/
def Numeric.Guards {α : Type} [Numeric α] (tolerance : α) : Prop :=
  ∀ x : α, negligible tolerance x = false → isDivisor x = true

/-- Exchanging two rows permutes them. -/
theorem Grid.swapIndex_injective {m : Nat} (a b : Fin m) : Function.Injective (Grid.swapIndex a b) := by
  intro i j hij
  have h := congrArg (Grid.swapIndex a b) hij
  simpa only [Grid.swapIndex_swapIndex] using h

/-- Rows before the row `p` stay where they are if later ones are exchanged. -/
theorem Grid.swapIndex_of_lt {m p : Nat} {a b i : Fin m} (ha : p ≤ a) (hb : p ≤ b) (hi : i < p) :
    Grid.swapIndex a b i = i := by
  have hne : i ≠ a := Fin.ne_of_val_ne (by omega)
  have hne' : i ≠ b := Fin.ne_of_val_ne (by omega)
  exact Grid.swapIndex_of_ne hne hne'

/-- Rows from the row `p` on are exchanged among themselves. -/
theorem Grid.le_swapIndex {m p : Nat} {a b i : Fin m} (ha : p ≤ a) (hb : p ≤ b) (hi : p ≤ i) :
    p ≤ Grid.swapIndex a b i := by
  unfold Grid.swapIndex
  split
  · exact hb
  · split
    · exact ha
    · exact hi

namespace Elimination

variable {α : Type} {m n : Nat}

/-! ### The search for a pivot -/

section

variable [Numeric α] {tolerance : α} {g : Grid α m n} {p : Nat} {c : Fin n} {r : Fin m}

/-- A pivot stands at or below the pivot row and is not negligible. -/
theorem findPivot?_some (h : findPivot? tolerance g p c = some r) :
    p ≤ r ∧ Numeric.negligible tolerance (g.cell r c) = false := by
  have hr := List.find?_some h
  simpa using hr

/-- Without a pivot, the column is negligible from the pivot row on. -/
theorem findPivot?_none (h : findPivot? tolerance g p c = none) (i : Fin m) (hi : p ≤ i) :
    Numeric.negligible tolerance (g.cell i c) = true := by
  have hi' := List.find?_eq_none.mp h i (List.mem_finRange i)
  simpa [hi] using hi'

end

/-! ### What a round can do -/

/-- What stands at the pivot after the exchange is the pivot that was found. -/
theorem cell_swap_pivot (s : Elimination α m n) (a r : Fin m) (c : Fin n) :
    (s.swap a r).upper.cell a c = s.upper.cell r c := by
  show (s.upper.swapRows a r).cell a c = s.upper.cell r c
  rw [Grid.cell_swapRows, Grid.swapIndex_left]

section

variable [Sub α] [Mul α] [Div α] [Numeric α] {tolerance : α} {s s' : Elimination α m n}

/-- **What a round can do.**  It leaves things as they are at the end of the rows or of the columns, skips
a column without a pivot, or brings a pivot up and clears the column below it. -/
theorem round_cases (h : s.round tolerance = .ok s') :
    (s' = s ∧ (m ≤ s.pivots ∨ n ≤ s.column)) ∨
    (∃ hc : s.column < n, s.pivots < m ∧
      findPivot? tolerance s.upper s.pivots ⟨s.column, hc⟩ = none ∧ s' = s.skip) ∨
    (∃ (hp : s.pivots < m) (hc : s.column < n) (r : Fin m),
      findPivot? tolerance s.upper s.pivots ⟨s.column, hc⟩ = some r ∧
      s' = (s.swap ⟨s.pivots, hp⟩ r).clear tolerance ⟨s.pivots, hp⟩ ⟨s.column, hc⟩) := by
  unfold round at h
  by_cases hp : s.pivots < m
  · by_cases hc : s.column < n
    · rw [dif_pos hp, dif_pos hc] at h
      cases hfind : findPivot? tolerance s.upper s.pivots ⟨s.column, hc⟩ with
      | none =>
          rw [hfind] at h
          exact .inr (.inl ⟨hc, hp, hfind, (Except.ok.inj h).symm⟩)
      | some r =>
          rw [hfind] at h
          simp only [clear?] at h
          split at h
          · nomatch h
          · exact .inr (.inr ⟨hp, hc, r, hfind, (Except.ok.inj h).symm⟩)
    · rw [dif_pos hp, dif_neg hc] at h
      exact .inl ⟨(Except.ok.inj h).symm, .inr (Nat.le_of_not_lt hc)⟩
  · rw [dif_neg hp] at h
    exact .inl ⟨(Except.ok.inj h).symm, .inl (Nat.le_of_not_lt hp)⟩

/-- Several rounds succeed if the first does and the others do behind it. -/
theorem rounds_succ_ok {k : Nat} (h : rounds tolerance (k + 1) s = .ok s') :
    ∃ t, s.round tolerance = .ok t ∧ rounds tolerance k t = .ok s' := by
  rw [rounds] at h
  cases hround : s.round tolerance with
  | error e =>
      rw [hround] at h
      nomatch h
  | ok t =>
      rw [hround] at h
      exact ⟨t, rfl, h⟩

/-- The last of several rounds. -/
theorem rounds_succ_last {k : Nat} : ∀ {s s' : Elimination α m n}, rounds tolerance (k + 1) s = .ok s' →
    ∃ t, rounds tolerance k s = .ok t ∧ t.round tolerance = .ok s' := by
  induction k with
  | zero =>
      intro s s' h
      obtain ⟨t, hround, hrounds⟩ := rounds_succ_ok h
      obtain rfl := Except.ok.inj hrounds
      exact ⟨s, rfl, hround⟩
  | succ k ih =>
      intro s s' h
      obtain ⟨t, hround, hrounds⟩ := rounds_succ_ok h
      obtain ⟨u, hu, hlast⟩ := ih hrounds
      refine ⟨u, ?_, hlast⟩
      rw [rounds, hround]
      exact hu

/-- **What every round preserves, several do.** -/
theorem rounds_preserves (P : Elimination α m n → Prop)
    (step : ∀ s s' : Elimination α m n, s.round tolerance = .ok s' → P s → P s') :
    ∀ (k : Nat) {s s' : Elimination α m n}, rounds tolerance k s = .ok s' → P s → P s' := by
  intro k
  induction k with
  | zero =>
      intro s s' h hs
      exact Except.ok.inj h ▸ hs
  | succ k ih =>
      intro s s' h hs
      obtain ⟨t, hround, hrounds⟩ := rounds_succ_ok h
      exact ih hrounds (step s t hround hs)

/-- A pivot does not count as zero, so it may be divided by. -/
theorem round_ok (h : Numeric.Guards tolerance) (s : Elimination α m n) :
    ∃ s', s.round tolerance = .ok s' := by
  unfold round
  by_cases hp : s.pivots < m
  · by_cases hc : s.column < n
    · rw [dif_pos hp, dif_pos hc]
      cases hfind : findPivot? tolerance s.upper s.pivots ⟨s.column, hc⟩ with
      | none => exact ⟨_, rfl⟩
      | some r =>
          have hdivisor : Numeric.isDivisor
              ((s.swap ⟨s.pivots, hp⟩ r).upper.cell ⟨s.pivots, hp⟩ ⟨s.column, hc⟩) = true := by
            rw [cell_swap_pivot]
            exact h _ (findPivot?_some hfind).2
          simp only [clear?, hdivisor, Bool.not_true, Bool.and_false]
          exact ⟨_, rfl⟩
    · rw [dif_pos hp, dif_neg hc]
      exact ⟨s, rfl⟩
  · rw [dif_neg hp]
    exact ⟨s, rfl⟩

/-- No division fails if pivots may be divided by. -/
theorem rounds_ok (h : Numeric.Guards tolerance) : ∀ (k : Nat) (s : Elimination α m n),
    ∃ s', rounds tolerance k s = .ok s' := by
  intro k
  induction k with
  | zero =>
      intro s
      exact ⟨s, rfl⟩
  | succ k ih =>
      intro s
      obtain ⟨t, ht⟩ := round_ok h s
      rw [rounds, ht]
      exact ih t

/-- Clearing a column leaves the pivot row and the rows above it as they are. -/
theorem cell_clear_of_le {p i : Fin m} (hi : i ≤ p) (c j : Fin n) :
    (s.clear tolerance p c).upper.cell i j = s.upper.cell i j := by
  have hneeds : needsClearing tolerance s.upper p c i = false := by
    have hlt : ¬ p < i := Nat.not_lt_of_le hi
    simp [needsClearing, hlt]
  simp only [clear, Grid.cell_ofFn, hneeds, Bool.false_eq_true, if_false]

/-- A round never goes back. -/
theorem column_round (h : s.round tolerance = .ok s') :
    (m ≤ s'.pivots ∨ n ≤ s'.column) ∨ s'.column = s.column + 1 := by
  rcases round_cases h with ⟨rfl, hdone⟩ | ⟨_, _, _, rfl⟩ | ⟨_, _, _, _, rfl⟩
  · exact .inl hdone
  · exact .inr rfl
  · refine .inr ?_
    show s.pivots + 1 + s.skipped = s.pivots + s.skipped + 1
    omega

/-- Enough rounds reach the last column or the last row. -/
theorem rounds_done : ∀ (k : Nat) {s s' : Elimination α m n}, rounds tolerance k s = .ok s' →
    (m ≤ s'.pivots ∨ n ≤ s'.column) ∨ s'.column = s.column + k := by
  intro k
  induction k with
  | zero =>
      intro s s' h
      exact .inr (congrArg column (Except.ok.inj h).symm)
  | succ k ih =>
      intro s s' h
      obtain ⟨t, hround, hrounds⟩ := rounds_succ_ok h
      rcases column_round hround with hdone | hcolumn
      · -- from here on the rounds leave things as they are
        refine .inl (rounds_preserves (fun u => m ≤ u.pivots ∨ n ≤ u.column) ?_ k hrounds hdone)
        intro u u' hu hdone'
        rcases round_cases hu with ⟨rfl, _⟩ | ⟨hc, hp, _⟩ | ⟨hp, hc, _⟩
        · exact hdone'
        · omega
        · omega
      · rcases ih hrounds with hdone | hcolumn'
        · exact .inl hdone
        · exact .inr (by omega)

end

/-! ### The lower factor and the order of the rows -/

/-- The lower factor of the decomposition has ones on its diagonal. -/
theorem lower_result_self [One α] (s : Elimination α m n) (i : Fin m) :
    s.result.lower.cell i i = 1 := by
  simp only [result, Grid.cell_ofFn, if_true]

/-- A row that is exchanged comes from where the other one came from. -/
theorem order_get_swap (s : Elimination α m n) (a b i : Fin m) :
    (s.swap a b).order.get i = s.order.get (Grid.swapIndex a b i) := by
  simp only [swap]
  rw [Vector.get_ofFn]
  rfl

/-- The lower factor is filled below the diagonal and in the columns of the pivots only, the rows are
permuted, and no more columns have been dealt with than there are. -/
structure Filled [Zero α] (s : Elimination α m n) : Prop where
  /-- A multiple stands below the diagonal, in the column of a pivot. -/
  lower : ∀ i k : Fin m, ¬ (k < i ∧ k.val < s.pivots) → s.lower.cell i k = 0
  /-- No row comes from two places. -/
  order : Function.Injective s.order.get
  /-- There is a row for each pivot. -/
  pivots : s.pivots ≤ m
  /-- Columns dealt with are columns of the grid. -/
  column : s.column ≤ n

namespace Filled

variable [Zero α] {s : Elimination α m n}

theorem start (g : Grid α m n) : Filled (Elimination.start g) where
  lower i k _ := by simp [Elimination.start]
  order i j hij := by
    simpa only [Elimination.start, Vector.get_ofFn, id_eq] using hij
  pivots := Nat.zero_le m
  column := Nat.zero_le n

/-- Exchanging the pivot row with one below it keeps the lower factor below the diagonal. -/
theorem swap (h : Filled s) (hp : s.pivots < m) {r : Fin m} (hr : s.pivots ≤ r) :
    Filled (s.swap ⟨s.pivots, hp⟩ r) where
  lower i k hik := by
    show (s.lower.swapSpan ⟨s.pivots, hp⟩ r 0 s.pivots).cell i k = 0
    rw [Grid.cell_swapSpan]
    have hik' : ¬ (k < i ∧ k.val < s.pivots) := hik
    by_cases hk : k.val < s.pivots
    · -- a row at or above the place of the cell is not one of the two rows
      have hi : i.val ≤ k.val := by
        rw [Fin.lt_def] at hik'
        omega
      have hstay : Grid.swapIndex ⟨s.pivots, hp⟩ r i = i :=
        Grid.swapIndex_of_lt (Nat.le_refl _) hr (Nat.lt_of_le_of_lt hi hk)
      rw [if_pos ⟨Nat.zero_le _, hk⟩, hstay]
      exact h.lower i k hik'
    · rw [if_neg fun hc => hk hc.2]
      exact h.lower i k hik'
  order := by
    intro i j hij
    rw [order_get_swap, order_get_swap] at hij
    exact Grid.swapIndex_injective _ _ (h.order hij)
  pivots := h.pivots
  column := h.column

section

variable [Sub α] [Mul α] [Div α] [Numeric α] {tolerance : α}

/-- Clearing a column fills the column of the pivot below the diagonal. -/
theorem clear (h : Filled s) {p : Fin m} (hp : p.val = s.pivots) {c : Fin n}
    (hc : c.val = s.column) : Filled (s.clear tolerance p c) where
  lower i k hik := by
    have hik' : ¬ (k < i ∧ k.val < s.pivots + 1) := hik
    simp only [Elimination.clear, Grid.cell_ofFn]
    split
    · rename_i hneeds
      obtain ⟨hneeds, rfl⟩ := hneeds
      have hlt : k < i := by
        simp only [needsClearing, Bool.and_eq_true, decide_eq_true_eq] at hneeds
        exact hneeds.1
      exact absurd ⟨hlt, by omega⟩ hik'
    · exact h.lower i k fun hk => hik' ⟨hk.1, by omega⟩
  order := h.order
  pivots := by
    have hlt := p.isLt
    show s.pivots + 1 ≤ m
    omega
  column := by
    have hlt := c.isLt
    have hcolumn : s.column = s.pivots + s.skipped := rfl
    show s.pivots + 1 + s.skipped ≤ n
    omega

theorem round {s' : Elimination α m n} (h : Filled s) (hround : s.round tolerance = .ok s') :
    Filled s' := by
  rcases round_cases hround with ⟨rfl, _⟩ | ⟨hc, _, _, rfl⟩ | ⟨hp, hc, r, hfind, rfl⟩
  · exact h
  · exact ⟨h.lower, h.order, h.pivots, by
      have hcolumn : s.column = s.pivots + s.skipped := rfl
      show s.pivots + (s.skipped + 1) ≤ n
      omega⟩
  · exact (h.swap hp (findPivot?_some hfind).1).clear rfl rfl

/-- **The lower factor is filled below the diagonal only**, and the rows are permuted. -/
theorem rounds {g : Grid α m n} {k : Nat} {s' : Elimination α m n}
    (hrounds : Elimination.rounds tolerance k (.start g) = .ok s') : Filled s' :=
  rounds_preserves Filled (fun _ _ hround h => h.round hround) k hrounds (.start g)

end

/-! ### The decomposition -/

section

variable [One α]

/-- The lower factor of the decomposition is zero above the diagonal. -/
theorem lower_result_of_lt (h : Filled s) {i k : Fin m} (hik : i < k) :
    s.result.lower.cell i k = 0 := by
  simp only [result, Grid.cell_ofFn, if_neg (Fin.ne_of_lt hik)]
  exact h.lower i k fun hc => absurd hc.1 (Nat.not_lt_of_lt hik)

/-- The decomposition counts the pivots as rank. -/
theorem rank_result (h : Filled s) (hdone : m ≤ s.pivots ∨ n ≤ s.column) :
    s.result.rank = s.pivots := by
  have hrows := h.pivots
  have hcols := h.column
  have hcolumn : s.column = s.pivots + s.skipped := rfl
  show min m (n - s.skipped) = s.pivots
  omega

end

end Filled

end Elimination

/-- **There is a decomposition if pivots may be divided by**, and it is what elimination has come to. -/
theorem Grid.lu_eq_of_guards {α : Type} [Zero α] [One α] [Sub α] [Mul α] [Div α] [Numeric α] {m n : Nat}
    {tolerance : α} (h : Numeric.Guards tolerance) (g : Grid α m n) :
    ∃ s, Elimination.rounds tolerance n (.start g) = .ok s ∧ g.lu tolerance = .ok s.result := by
  obtain ⟨s, hs⟩ := Elimination.rounds_ok h n (.start g)
  refine ⟨s, hs, ?_⟩
  rw [Grid.lu, hs]
  rfl

end MatrixCalc
