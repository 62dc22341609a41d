/-
**The shortest decimal reads back, and as one double only.**

A decimal number reads back as a double if it lies in the interval of the numbers that round to it.  The
intervals of two doubles have no number in common: at most their ends meet, and then an end is left out on one
side, where the mantissa is odd.  The search for the shortest decimal comes to a grid that is as fine as a
quarter of the last binary place, and there is a point of every interval on such a grid.

Main definitions:

* `MatrixCalc.Decimal.IsCanonical`, `MatrixCalc.Decimal.IsRounded` — the mantissas and exponents of doubles, and
  those that rounding comes to;
* `MatrixCalc.Decimal.lowest`, `MatrixCalc.Decimal.highest`, `MatrixCalc.Decimal.RoundsTo` — the interval of the
  numbers that round to a double.

Main results:

* `MatrixCalc.Decimal.readsBack_iff` — what reads back is what rounds to the double;
* `MatrixCalc.Decimal.RoundsTo.unique` — **no number rounds to two doubles**;
* `MatrixCalc.Decimal.exists_search` — the search comes to a point that reads back;
* `MatrixCalc.Decimal.shortest_roundsTo` — **the shortest decimal rounds to the double**.
-/

import Mathlib
import MatrixCalc.Decimal.Shortest

set_option autoImplicit false

namespace MatrixCalc

namespace Decimal

variable {m m' : Nat} {q q' : Int}

/-! ### The interval of a double -/

/-- The mantissas and exponents of doubles: the exponent is the least one, or the mantissa is full. -/
structure IsCanonical (m : Nat) (q : Int) : Prop where
  mantissa_lt : m < 2 ^ 53
  least : -1074 ≤ q
  greatest : q ≤ 971
  full : -1074 < q → 2 ^ 52 ≤ m

/-- The mantissas and exponents that rounding comes to, whether or not the exponent is too great for a double: the
exponent is the least one, or the mantissa is full. -/
structure IsRounded (m : Nat) (q : Int) : Prop where
  mantissa_lt : m < 2 ^ 53
  least : -1074 ≤ q
  full : -1074 < q → 2 ^ 52 ≤ m

theorem IsCanonical.isRounded (h : IsCanonical m q) : IsRounded m q := ⟨h.mantissa_lt, h.least, h.full⟩

/-- The lower end of the interval of the numbers that round to `m * 2 ^ q`. -/
def lowest (m : Nat) (q : Int) : ℚ :=
  ((4 * m - if shrinksBelow m q then 1 else 2 : Nat) : ℚ) * 2 ^ (q - 2)

/-- The upper end of the interval of the numbers that round to `m * 2 ^ q`. -/
def highest (m : Nat) (q : Int) : ℚ := ((4 * m + 2 : Nat) : ℚ) * 2 ^ (q - 2)

/-- A number rounds to `m * 2 ^ q`: it is in the interval, and no end of it unless the mantissa is even. -/
def RoundsTo (m : Nat) (q : Int) (v : ℚ) : Prop :=
  if m % 2 = 0 then lowest m q ≤ v ∧ v ≤ highest m q else lowest m q < v ∧ v < highest m q

theorem RoundsTo.between {v : ℚ} (h : RoundsTo m q v) : lowest m q ≤ v ∧ v ≤ highest m q := by
  rw [RoundsTo] at h
  split at h
  · exact h
  · exact ⟨h.1.le, h.2.le⟩

theorem RoundsTo.inside {v : ℚ} (h : RoundsTo m q v) (hodd : m % 2 = 1) :
    lowest m q < v ∧ v < highest m q := by
  rwa [RoundsTo, if_neg (by omega)] at h

/-! ### Grids -/

/-- The units of a scale are in the ratio of the decimal and the binary place. -/
theorem Scale.exists_unit (p e : Int) :
    ∃ k : ℚ, 0 < k ∧ ((Scale.of p e).decimal : ℚ) = 10 ^ p * k ∧ ((Scale.of p e).binary : ℚ) = 2 ^ e * k := by
  refine ⟨10 ^ ((-p).toNat : ℤ) * 2 ^ ((-e).toNat : ℤ), by positivity, ?_, ?_⟩
  · have hp : p + (-p).toNat = p.toNat := by omega
    simp only [Scale.of, Nat.pow_eq, Nat.cast_mul, Nat.cast_pow, Nat.cast_ofNat]
    rw [← mul_assoc, ← zpow_add₀ (by norm_num), hp, zpow_natCast, zpow_natCast]
  · have he : e + (-e).toNat = e.toNat := by omega
    simp only [Scale.of, Nat.pow_eq, Nat.cast_mul, Nat.cast_pow, Nat.cast_ofNat]
    rw [mul_comm (10 ^ _), ← mul_assoc, ← zpow_add₀ (by norm_num), he, zpow_natCast, zpow_natCast]

/-- Points are compared on a scale as they are. -/
theorem Scale.le_iff (p e : Int) (a b : Nat) :
    (a * (Scale.of p e).binary ≤ b * (Scale.of p e).decimal ↔ (a : ℚ) * 2 ^ e ≤ b * 10 ^ p) ∧
      (b * (Scale.of p e).decimal ≤ a * (Scale.of p e).binary ↔ (b : ℚ) * 10 ^ p ≤ a * 2 ^ e) := by
  obtain ⟨k, hk, hdecimal, hbinary⟩ := Scale.exists_unit p e
  rw [← Nat.cast_le (α := ℚ), ← Nat.cast_le (α := ℚ)]
  simp only [Nat.cast_mul, hdecimal, hbinary, ← mul_assoc]
  exact ⟨mul_le_mul_iff_left₀ hk, mul_le_mul_iff_left₀ hk⟩

/-- **What reads back is what rounds to the double.** -/
theorem readsBack_iff (m : Nat) (q p : Int) (c : Nat) :
    readsBack m q (Scale.of p (q - 2)) c = true ↔ RoundsTo m q (c * 10 ^ p) := by
  have hlow := (Scale.le_iff p (q - 2) (4 * m - if shrinksBelow m q then 1 else 2) c)
  have hhigh := (Scale.le_iff p (q - 2) (4 * m + 2) c)
  simp only [readsBack, RoundsTo, lowest, highest]
  split
  · rw [Bool.and_eq_true, decide_eq_true_iff, decide_eq_true_iff, hlow.1, hhigh.2]
  · rw [Bool.and_eq_true, decide_eq_true_iff, decide_eq_true_iff, ← not_le, ← not_le, hlow.2, hhigh.1, not_le,
      not_le]

/-! ### Intervals do not meet -/

/-- The intervals of two doubles with the same exponent are one above the other, and where they meet a mantissa
is odd. -/
theorem highest_le_lowest_of_lt (h : m < m') (q : Int) :
    highest m q ≤ lowest m' q ∧ (highest m q = lowest m' q → m % 2 = 1 ∨ m' % 2 = 1) := by
  have hstep : (0 : ℚ) < 2 ^ (q - 2) := zpow_pos two_pos _
  have hle : 4 * m + 2 ≤ 4 * m' - if shrinksBelow m' q then 1 else 2 := by
    split <;> omega
  refine ⟨mul_le_mul_of_nonneg_right (Nat.cast_le.2 hle) hstep.le, fun heq => ?_⟩
  have heq' : 4 * m + 2 = 4 * m' - if shrinksBelow m' q then 1 else 2 :=
    Nat.cast_injective (mul_right_cancel₀ hstep.ne' heq)
  split at heq' <;> omega

/-- The interval of a double with a greater exponent is above, and where they meet the mantissa below is odd. -/
theorem highest_le_lowest_of_exponent_lt (h : IsRounded m q) (h' : IsRounded m' q') (hlt : q < q') :
    highest m q ≤ lowest m' q' ∧ (highest m q = lowest m' q' → m % 2 = 1) := by
  have hstep : (0 : ℚ) < 2 ^ (q - 2) := zpow_pos two_pos _
  -- the last place above is at least twice the one below, and the mantissa is full
  have hdouble : (2 : ℚ) * 2 ^ (q - 2) ≤ 2 ^ (q' - 2) := by
    rw [← zpow_one_add₀ two_ne_zero]
    exact zpow_le_zpow_right₀ one_le_two (by omega)
  have hgreater : -1074 < q' := Int.lt_of_le_of_lt h.least hlt
  have hfull : 2 ^ 54 - 1 ≤ 4 * m' - if shrinksBelow m' q' then 1 else 2 := by
    have hm' := h'.full hgreater
    split
    · omega
    · next hshrink =>
        have hne : m' ≠ 2 ^ 52 := fun heq => hshrink (by simp [shrinksBelow, heq, hgreater])
        omega
  have hlow : (((2 ^ 54 - 1) * 2 : Nat) : ℚ) * 2 ^ (q - 2) ≤ lowest m' q' := by
    rw [Nat.cast_mul, Nat.cast_ofNat, mul_assoc]
    exact mul_le_mul (Nat.cast_le.2 hfull) hdouble (by positivity) (Nat.cast_nonneg _)
  have hbelow : 4 * m + 2 ≤ (2 ^ 54 - 1) * 2 := by
    have hm := h.mantissa_lt
    omega
  have hhigh : highest m q ≤ (((2 ^ 54 - 1) * 2 : Nat) : ℚ) * 2 ^ (q - 2) :=
    mul_le_mul_of_nonneg_right (Nat.cast_le.2 hbelow) hstep.le
  refine ⟨hhigh.trans hlow, fun heq => ?_⟩
  have hmeet : highest m q = (((2 ^ 54 - 1) * 2 : Nat) : ℚ) * 2 ^ (q - 2) := le_antisymm hhigh (heq ▸ hlow)
  have hmeet' : 4 * m + 2 = (2 ^ 54 - 1) * 2 := Nat.cast_injective (mul_right_cancel₀ hstep.ne' hmeet)
  omega

/-- **Intervals do not meet**: if one is above the other, and the mantissa is odd on a side where they do, there is
no number in both. -/
theorem RoundsTo.not_both {v : ℚ} (h : RoundsTo m q v) (h' : RoundsTo m' q' v)
    (habove : highest m q ≤ lowest m' q' ∧ (highest m q = lowest m' q' → m % 2 = 1 ∨ m' % 2 = 1)) : False := by
  have hle := h.between.2
  have hge := h'.between.1
  have hmeet : highest m q = lowest m' q' := le_antisymm habove.1 (hge.trans hle)
  rcases habove.2 hmeet with hodd | hodd
  · exact absurd (hge.trans_lt (h.inside hodd).2) (by rw [hmeet]; exact lt_irrefl _)
  · exact absurd ((h'.inside hodd).1.trans_le hle) (by rw [hmeet]; exact lt_irrefl _)

/-- **No number rounds to two doubles.** -/
theorem RoundsTo.unique {v : ℚ} (h : IsRounded m q) (h' : IsRounded m' q') (hv : RoundsTo m q v)
    (hv' : RoundsTo m' q' v) : m = m' ∧ q = q' := by
  rcases lt_trichotomy q q' with hlt | rfl | hlt
  · obtain ⟨hle, hodd⟩ := highest_le_lowest_of_exponent_lt h h' hlt
    exact (hv.not_both hv' ⟨hle, fun heq => .inl (hodd heq)⟩).elim
  · rcases lt_trichotomy m m' with hlt | rfl | hlt
    · exact (hv.not_both hv' (highest_le_lowest_of_lt hlt q)).elim
    · exact ⟨rfl, rfl⟩
    · exact (hv'.not_both hv (highest_le_lowest_of_lt hlt q)).elim
  · obtain ⟨hle, hodd⟩ := highest_le_lowest_of_exponent_lt h' h hlt
    exact (hv'.not_both hv ⟨hle, fun heq => .inl (hodd heq)⟩).elim

/-! ### The search -/

/-- The point that is written for a double reads back. -/
theorem readsBack_of_onGrid? {p : Int} {c : Nat} (h : onGrid? m q p = some c) :
    readsBack m q (Scale.of p (q - 2)) c = true := by
  simp only [onGrid?] at h
  split at h
  · next hbelow _ =>
      obtain rfl := Option.some.inj h
      exact hbelow
  · next _ habove =>
      obtain rfl := Option.some.inj h
      exact habove
  · cases h
  · next hbelow habove =>
      split at h
      · obtain rfl := Option.some.inj h
        exact hbelow
      split at h
      · obtain rfl := Option.some.inj h
        exact habove
      split at h
      · obtain rfl := Option.some.inj h
        exact hbelow
      · obtain rfl := Option.some.inj h
        exact habove

/-- A point of the grid is found if one of the neighbours reads back. -/
theorem isSome_onGrid? {p : Int}
    (h : readsBack m q (Scale.of p (q - 2)) (4 * m * (Scale.of p (q - 2)).binary / (Scale.of p (q - 2)).decimal) =
      true) : (onGrid? m q p).isSome = true := by
  simp only [onGrid?, h]
  split
  · rfl
  · rfl
  · next hfalse _ => cases hfalse
  · split
    · rfl
    split
    · rfl
    split <;> rfl

theorem Scale.decimal_pos (p e : Int) : 0 < (Scale.of p e).decimal := by
  simp only [Scale.of, Nat.pow_eq]
  positivity

/-- **A grid that is as fine as a quarter of the last binary place has a point that reads back**: the neighbour
below is not as far away as the lower end of the interval. -/
theorem isSome_onGrid?_of_le (hm : m ≠ 0) {p : Int}
    (h : (Scale.of p (q - 2)).decimal ≤ (Scale.of p (q - 2)).binary) : (onGrid? m q p).isSome = true := by
  refine isSome_onGrid? ?_
  have hpos := Scale.decimal_pos p (q - 2)
  simp only [readsBack]
  generalize (Scale.of p (q - 2)).decimal = d at *
  generalize (Scale.of p (q - 2)).binary = b at *
  have hpoint : 4 * m * b / d * d ≤ 4 * m * b := Nat.div_mul_le_self _ _
  have hnear : 4 * m * b < 4 * m * b / d * d + d := Nat.lt_div_mul_add hpos
  have hlow : (4 * m - if shrinksBelow m q then 1 else 2) * b + b ≤ 4 * m * b := by
    rw [← Nat.succ_mul]
    exact Nat.mul_le_mul_right _ (by split <;> omega)
  have hhigh : 4 * m * b + 2 * b = (4 * m + 2) * b := (Nat.add_mul _ _ _).symm
  split <;>
  · rw [Bool.and_eq_true, decide_eq_true_iff, decide_eq_true_iff]
    constructor <;> omega

/-- The search comes to the first grid that has a point that reads back, if that is not too far away. -/
theorem exists_search_of_isSome {fuel k : Nat} {p : Int} (hk : k < fuel)
    (h : (onGrid? m q (p - k)).isSome = true) :
    ∃ c p', search m q fuel p = (c, p') ∧ onGrid? m q p' = some c := by
  induction fuel generalizing p k with
  | zero => omega
  | succ fuel ih =>
      rw [search]
      cases hgrid : onGrid? m q p with
      | some c => exact ⟨c, p, rfl, hgrid⟩
      | none =>
          cases k with
          | zero =>
              rw [Nat.cast_zero, Int.sub_zero, hgrid] at h
              cases h
          | succ k =>
              refine ih (k := k) (by omega) ?_
              rwa [Int.sub_sub, Int.add_comm, ← Nat.cast_succ]

/-! ### Powers of ten and of two -/

/-- A thousand is at most two to the tenth. -/
theorem pow_ten_le_pow_two {a b : Nat} (h : 10 * a ≤ 3 * b) : 10 ^ a ≤ 2 ^ b := by
  refine (Nat.pow_le_pow_iff_left (n := 3) (by decide)).1 ?_
  calc (10 ^ a) ^ 3 = (10 ^ 3) ^ a := by rw [← Nat.pow_mul, ← Nat.pow_mul, Nat.mul_comm]
    _ ≤ (2 ^ 10) ^ a := Nat.pow_le_pow_left (by decide) a
    _ = 2 ^ (10 * a) := (Nat.pow_mul ..).symm
    _ ≤ 2 ^ (3 * b) := Nat.pow_le_pow_right (by decide) h
    _ = (2 ^ b) ^ 3 := by rw [← Nat.pow_mul, Nat.mul_comm]

/-- Two to the thirty-third is at most ten to the tenth. -/
theorem pow_two_le_pow_ten {a b : Nat} (h : 10 * b ≤ 33 * a) : 2 ^ b ≤ 10 ^ a := by
  refine (Nat.pow_le_pow_iff_left (n := 33) (by decide)).1 ?_
  calc (2 ^ b) ^ 33 = (2 ^ 33) ^ b := by rw [← Nat.pow_mul, ← Nat.pow_mul, Nat.mul_comm]
    _ ≤ (10 ^ 10) ^ b := Nat.pow_le_pow_left (by decide) b
    _ = 10 ^ (10 * b) := (Nat.pow_mul ..).symm
    _ ≤ 10 ^ (33 * a) := Nat.pow_le_pow_right (by decide) h
    _ = (10 ^ a) ^ 33 := by rw [← Nat.pow_mul, Nat.mul_comm]

/-- A decimal place is at most a binary one if the exponents are in the ratio of the bounds above. -/
theorem Scale.decimal_le_binary {p e : Int} (hpos : 0 ≤ e → 10 * p ≤ 3 * e)
    (hneg : e < 0 → p < 0 ∧ -10 * e ≤ -33 * p) : (Scale.of p e).decimal ≤ (Scale.of p e).binary := by
  simp only [Scale.of, Nat.pow_eq]
  rcases Int.lt_or_le e 0 with he | he
  · have hp : p.toNat = 0 := by have := hneg he; omega
    have he' : e.toNat = 0 := by omega
    rw [hp, he', Nat.pow_zero, Nat.one_mul, Nat.one_mul]
    exact pow_two_le_pow_ten (by have := hneg he; omega)
  · have he' : (-e).toNat = 0 := by omega
    rw [he', Nat.pow_zero, Nat.mul_one]
    exact (pow_ten_le_pow_two (by have := hpos he; omega)).trans
      (Nat.le_mul_of_pos_right _ (Nat.pow_pos (by decide)))

/-- The last grid of the search is as fine as a quarter of the last binary place. -/
theorem finest_le (hm : m ≠ 0) (h : IsCanonical m q) :
    (Scale.of (coarsestExponent m q - 21) (q - 2)).decimal ≤ (Scale.of (coarsestExponent m q - 21) (q - 2)).binary := by
  have hlog : m.log2 < 53 := (Nat.log2_lt hm).2 h.mantissa_lt
  have hleast := h.least
  have hgreatest := h.greatest
  have hcoarsest : 100000 * coarsestExponent m q ≤ (53 + q) * 30103 + 100000 := by
    rw [coarsestExponent, Int.fdiv_eq_ediv_of_nonneg _ (by decide)]
    omega
  exact Scale.decimal_le_binary (fun he => by omega) fun he => by omega

/-- **The search comes to a point that reads back.** -/
theorem exists_search (hm : m ≠ 0) (h : IsCanonical m q) :
    ∃ c p, search m q 22 (coarsestExponent m q) = (c, p) ∧ onGrid? m q p = some c :=
  exists_search_of_isSome (k := 21) (by decide) (isSome_onGrid?_of_le hm (finest_le hm h))

/-! ### The shortest decimal -/

/-- Zeros that are dropped are powers of ten. -/
theorem dropZeros_mul_pow (fuel c : Nat) : (dropZeros fuel c).1 * 10 ^ (dropZeros fuel c).2 = c := by
  induction fuel generalizing c with
  | zero => simp [dropZeros]
  | succ fuel ih =>
      rw [dropZeros]
      split
      · next hc =>
          rw [Nat.pow_succ, ← Nat.mul_assoc, ih]
          exact Nat.div_mul_cancel (Nat.dvd_of_mod_eq_zero hc.2)
      · simp

/-- **The shortest decimal rounds to the double.** -/
theorem shortest_roundsTo (hm : m ≠ 0) (h : IsCanonical m q) :
    RoundsTo m q ((shortest m q).1 * 10 ^ (shortest m q).2) := by
  obtain ⟨c, p, hsearch, hgrid⟩ := exists_search hm h
  have hvalue : ((shortest m q).1 : ℚ) * 10 ^ (shortest m q).2 = c * 10 ^ p := by
    have hten : (10 : ℚ) ≠ 0 := by norm_num
    have hdrop : (((dropZeros 20 c).1 : ℚ)) * 10 ^ (dropZeros 20 c).2 = c := by
      exact_mod_cast dropZeros_mul_pow 20 c
    simp only [shortest, hsearch]
    rw [Int.add_comm, zpow_add₀ hten, zpow_natCast, ← mul_assoc, hdrop]
  rw [hvalue]
  exact (readsBack_iff m q p c).1 (readsBack_of_onGrid? hgrid)

end Decimal

end MatrixCalc
