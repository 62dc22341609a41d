/-
**Pivots divide.**

Inversion divides by its pivots, which are the cells that do not count as zero.  If the tolerance is a
number that is not negative, zero of either sign always counts as zero, so every pivot may be divided by and
inversion never needs a division by zero.  A tolerance that is no number is not negative either, but then
nothing counts as zero.

Main results:

* `MatrixCalc.Numeric.guards_of_le` — a tolerance of at least zero guards divisions of doubles;
* `MatrixCalc.Context.le_or_isNaN` — the tolerance of a context is at least zero, or no number;
* `MatrixCalc.Grid.inverse?_ok_of_guards` — inverting needs no division by zero;
* `MatrixCalc.Value.divMatrix_cases` — **what dividing two matrices can come to**.
-/

import MatrixCalc.Decimal.Order
import MatrixCalc.Evaluation.Context
import MatrixCalc.Proofs.Decimal.Zeros
import MatrixCalc.Proofs.Dense.GaussJordan

set_option autoImplicit false

namespace MatrixCalc

/-! ### Doubles -/

namespace Decimal

open Float.Model

/-- A double that is not below zero is at least zero, or no number. -/
theorem zero_le_or_isNaN {x : Float} (h : ¬ x < 0) : 0 ≤ x ∨ x.isNaN = true := by
  have hlt : ¬ x.toModel.unpack.lt (.zero .positive) = true := fun hlt => h (decide_eq_true hlt)
  suffices hle : (UnpackedFloat.zero .positive).le x.toModel.unpack = true ∨
      x.toModel.unpack.isNaN = true from hle.imp decide_eq_true id
  generalize x.toModel.unpack = u at hlt
  cases u with
  | notANumber => exact .inr rfl
  | zero s => exact .inl rfl
  | infinity s =>
      cases s with
      | positive => exact .inl rfl
      | negative => exact absurd rfl hlt
  | finite s _ _ _ =>
      cases s with
      | positive => exact .inl rfl
      | negative => exact absurd rfl hlt

/-- A double that is at least another is a number. -/
theorem isNaN_of_le {x y : Float} (h : y ≤ x) : x.isNaN = false := by
  have hle : (y.toModel.unpack.compare x.toModel.unpack).any (·.isLE) = true := of_decide_eq_true h
  show x.toModel.unpack.isNaN = false
  generalize x.toModel.unpack = u at hle
  cases u with
  | notANumber =>
      have hnone : y.toModel.unpack.compare .notANumber = none := by
        cases y.toModel.unpack <;> rfl
      rw [hnone] at hle
      cases hle
  | _ => rfl

end Decimal

/-- The tolerance of a context is at least zero, or no number. -/
theorem Context.le_or_isNaN (c : Context) : 0 ≤ c.zeroTolerance ∨ c.zeroTolerance.isNaN = true :=
  Decimal.zero_le_or_isNaN c.nonneg

namespace Numeric

/-- A tolerance of at least zero guards divisions: zero counts as zero. -/
theorem guards_of_le {tolerance : Float} (h : 0 ≤ tolerance) : Guards tolerance := by
  intro x hx
  cases hzero : x == 0 with
  | false =>
      show (!(x == 0)) = true
      rw [hzero, Bool.not_false]
  | true =>
      -- the magnitude of a zero is at most the tolerance
      have hx' : decide (x.abs ≤ tolerance) = false := hx
      rw [Decimal.abs_of_beq_zero hzero, decide_eq_true h] at hx'
      cases hx'

end Numeric

/-! ### Inversion -/

section

variable {α : Type} [Zero α] [One α] [Sub α] [Mul α] [Div α] [Numeric α] {tolerance : α} {n : Nat}

/-- A pivot does not count as zero, so it may be divided by. -/
theorem Inversion.round_ok (h : Numeric.Guards tolerance) (p : Fin n) (s : Inversion α n) :
    ∃ found, s.round tolerance p = .ok found := by
  unfold Inversion.round
  cases hfind : Elimination.findPivot? tolerance s.work p p with
  | none => exact ⟨none, rfl⟩
  | some r =>
      obtain ⟨-, hpivot⟩ := Elimination.findPivot?_some hfind
      have hcell : (s.swap p r).work.cell p p = s.work.cell r p := by
        show (s.work.swapRows p r).cell p p = _
        rw [Grid.cell_swapRows, Grid.swapIndex_left]
      have hdivides : Numeric.isDivisor ((s.swap p r).work.cell p p) = true := by
        rw [hcell]
        exact h _ hpivot
      exact ⟨_, if_pos hdivides⟩

theorem Inversion.rounds_ok (h : Numeric.Guards tolerance) (ps : List (Fin n)) (s : Inversion α n) :
    ∃ found, rounds tolerance ps s = .ok found := by
  induction ps generalizing s with
  | nil => exact ⟨some s, rfl⟩
  | cons p ps ih =>
      obtain ⟨found, hround⟩ := s.round_ok h p
      rw [rounds, hround]
      cases found with
      | none => exact ⟨none, rfl⟩
      | some s' => exact ih s'

/-- **Inverting needs no division by zero** if what does not count as zero may be divided by. -/
theorem Grid.inverse?_ok_of_guards (h : Numeric.Guards tolerance) (g : Grid α n n) :
    ∃ found, g.inverse? tolerance = .ok found := by
  obtain ⟨found, hrounds⟩ := Inversion.rounds_ok h (List.finRange n) (.start g)
  exact ⟨_, by rw [Grid.inverse?, hrounds]; rfl⟩

/-- **What dividing two matrices that are square and of the same size can come to.**  The divisor has an
inverse or has none, unless finding that out needs a division by zero.  The product with an inverse always
exists. -/
theorem Value.divMatrix_cases [Add α] (tolerance : α) {a b : DenseMatrix α}
    (h : (b.shape.isSquare && a.shape == b.shape) = true) :
    ∃ (n : Nat) (g : Grid α n n), b = ⟨n, n, g⟩ ∧
      ((g.inverse? tolerance = .error .zeroDivision ∧
          divMatrix tolerance a b = .error (.division .zeroDivision)) ∨
        divMatrix tolerance a b = .error (.eval .singularDivisor) ∨
        ∃ product : Grid α n n, divMatrix tolerance a b = .ok ⟨n, n, product⟩) := by
  obtain ⟨m, n, ga⟩ := a
  obtain ⟨m', k, g⟩ := b
  have hsame : m' = k ∧ m = m' ∧ n = k := by
    simpa [DenseMatrix.shape, Shape.isSquare] using h
  obtain ⟨rfl, rfl, rfl⟩ := hsame
  refine ⟨_, g, rfl, ?_⟩
  simp only [divMatrix, DenseMatrix.inverse?_mk]
  rcases g.inverse? tolerance with ⟨⟨⟩⟩ | _ | i
  · exact .inl ⟨rfl, rfl⟩
  · exact .inr (.inl rfl)
  · refine .inr (.inr ⟨ga.mul i, ?_⟩)
    simp only [Except.map, Option.map, DenseMatrix.mul_mk, Except.mapError]

end

end MatrixCalc
