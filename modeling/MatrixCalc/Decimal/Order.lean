/-
**The order of doubles.**

Comparing two doubles in the other direction gives the opposite result, and none if one of them is not
a number.  So a double that is at least another is not below it.

Main results:

* `MatrixCalc.Decimal.compare_swap` — comparing in the other direction;
* `MatrixCalc.Decimal.not_lt_of_le` — at least means not below.
-/

set_option autoImplicit false

namespace MatrixCalc

namespace Decimal

open Float.Model

/-- Comparing in the other direction gives the opposite result. -/
theorem compare_swap (a b : UnpackedFloat) : b.compare a = (a.compare b).map Ordering.swap := by
  match a, b with
  | .notANumber, b => cases b <;> rfl
  | .infinity s, .notANumber => cases s <;> rfl
  | .infinity s, .infinity t => cases s <;> cases t <;> rfl
  | .infinity s, .zero t => cases s <;> cases t <;> rfl
  | .infinity s, .finite t _ _ _ => cases s <;> cases t <;> rfl
  | .zero _, .notANumber => rfl
  | .zero s, .infinity t => cases s <;> cases t <;> rfl
  | .zero _, .zero _ => rfl
  | .zero _, .finite t _ _ _ => cases t <;> rfl
  | .finite s _ _ _, .notANumber => cases s <;> rfl
  | .finite s _ _ _, .infinity t => cases s <;> cases t <;> rfl
  | .finite s _ _ _, .zero _ => cases s <;> rfl
  | .finite s m p _, .finite t n q _ =>
      have h : (compare q p).then (compare n m) = ((compare p q).then (compare m n)).swap := by
        rw [Ordering.swap_then, Std.OrientedOrd.eq_swap (a := q), Std.OrientedOrd.eq_swap (a := n)]
      cases s <;> cases t
      · exact congrArg (fun o => some o.swap) h
      · rfl
      · rfl
      · exact congrArg some h

/-- A double that is at least another is not below it. -/
theorem not_lt_of_le {x y : Float} (h : y ≤ x) : ¬ x < y := by
  intro hl
  have hle : y.toModel.unpack.le x.toModel.unpack = true := of_decide_eq_true h
  have hlt : x.toModel.unpack.lt y.toModel.unpack = true := of_decide_eq_true hl
  simp only [UnpackedFloat.le, UnpackedFloat.lt, beq_iff_eq] at hle hlt
  rw [compare_swap, hlt] at hle
  simp at hle

end Decimal

end MatrixCalc
