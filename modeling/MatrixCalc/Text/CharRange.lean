/-
**Sets of characters, given by ranges of code points.**

The properties of characters that the calculator asks about (letter, digit, printable) are tables of
closed ranges of code points in increasing order.  A look-up walks the table and stops at the first
range that lies beyond the character, so that the common characters, which come first, are cheap.

Main definitions:

* `MatrixCalc.Text.inRanges` — whether a code point lies in one of the ranges.
-/

set_option autoImplicit false

namespace MatrixCalc

namespace Text

/-- Whether the code point `n` lies in one of the closed ranges `rs`, listed in increasing order. -/
def inRanges : List (Nat × Nat) → Nat → Bool
  | [], _ => false
  | (lo, hi) :: rs, n => if n < lo then false else decide (n ≤ hi) || inRanges rs n

@[simp] theorem inRanges_nil (n : Nat) : inRanges [] n = false := rfl

theorem inRanges_cons (lo hi n : Nat) (rs : List (Nat × Nat)) :
    inRanges ((lo, hi) :: rs) n = if n < lo then false else decide (n ≤ hi) || inRanges rs n :=
  rfl

/-- What a look-up finds lies in one of the listed ranges. -/
theorem exists_range_of_inRanges {rs : List (Nat × Nat)} {n : Nat} (h : inRanges rs n = true) :
    ∃ r ∈ rs, r.1 ≤ n ∧ n ≤ r.2 := by
  induction rs with
  | nil => simp at h
  | cons r rs ih =>
      obtain ⟨lo, hi⟩ := r
      rw [inRanges_cons] at h
      split at h
      · simp at h
      · next hlo =>
          rcases Bool.or_eq_true _ _ ▸ h with h | h
          · exact ⟨(lo, hi), by simp, by omega, by simpa using h⟩
          · obtain ⟨r, hr, hb⟩ := ih h
            exact ⟨r, by simp [hr], hb⟩

end Text

end MatrixCalc
