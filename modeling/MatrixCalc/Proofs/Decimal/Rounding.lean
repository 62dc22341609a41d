/-
**Doubles are rounded to nearest.**

An exact number of last places is kept as a mantissa and two bits for what is below it: the first digit of that,
and whether there is more.  Moving digits below the last place keeps the number.  The mantissa is then rounded to
the nearest one, of two equally near ones to the even one, and what comes of it is the double to which the number
rounds.

Main definitions:

* `MatrixCalc.Decimal.Holds` — a mantissa with two bits below it is a number of last places.

Main results:

* `MatrixCalc.Decimal.Holds.shift` — moving digits below the last place keeps the number;
* `MatrixCalc.Decimal.Holds.nearest` — the mantissa is rounded to the nearest one;
* `MatrixCalc.Decimal.exists_roundWithAccuracy` — **what is rounded is what the number rounds to**.
-/

import MatrixCalc.Proofs.Decimal.ReadsBack

set_option autoImplicit false

namespace MatrixCalc

namespace Decimal

open Float.Model UnpackedFloat

/-! ### Digits below the last place -/

variable {em : ExtendedMantissa} {x : ℚ}

/-- A mantissa with its two bits stands for `x` last places: behind the first bit less than half a place is left, and
the second bit tells whether anything is. -/
def Holds (em : ExtendedMantissa) (x : ℚ) : Prop :=
  ∃ t : ℚ, 0 ≤ t ∧ t < 1 / 2 ∧ (em.stickyBit = true ↔ t ≠ 0) ∧ x = em.mantissa + em.roundBit.toNat / 2 + t

/-- What is known about a number of places is kept in the two bits. -/
theorem holds_ofFraction (m : Nat) {r d : Nat} (hr : r < d) :
    Holds (.ofMantissaAndAccuracy m (accuracyOfFraction r d)) (m + r / d) := by
  have hd : (0 : ℚ) < d := by exact_mod_cast Nat.zero_lt_of_lt hr
  have hr' : (r : ℚ) < d := by exact_mod_cast hr
  unfold accuracyOfFraction
  split
  · next hzero =>
      subst hzero
      exact ⟨0, le_rfl, by norm_num, by simp [ExtendedMantissa.ofMantissaAndAccuracy],
        by simp [ExtendedMantissa.ofMantissaAndAccuracy]⟩
  · next hzero =>
      have hpos : (0 : ℚ) < r := by exact_mod_cast Nat.pos_of_ne_zero hzero
      rcases lt_trichotomy (2 * r) d with h | h | h
      · have h' : (2 * r : ℚ) < d := by exact_mod_cast h
        rw [Nat.compare_eq_lt.2 h]
        refine ⟨r / d, by positivity, ?_, ?_, ?_⟩
        · rw [div_lt_div_iff₀ hd two_pos]
          linarith
        · simp [ExtendedMantissa.ofMantissaAndAccuracy, hd.ne', hzero]
        · simp [ExtendedMantissa.ofMantissaAndAccuracy]
      · have h' : (2 * r : ℚ) = d := by exact_mod_cast h
        rw [Nat.compare_eq_eq.2 h]
        refine ⟨0, le_rfl, by norm_num, by simp [ExtendedMantissa.ofMantissaAndAccuracy], ?_⟩
        simp only [ExtendedMantissa.ofMantissaAndAccuracy, Bool.toNat_true, ← h']
        field_simp
        simp
      · have h' : (d : ℚ) < 2 * r := by exact_mod_cast h
        rw [Nat.compare_eq_gt.2 h]
        have hhalf : (1 : ℚ) / 2 < r / d := by
          rw [div_lt_div_iff₀ two_pos hd]
          linarith
        have hone : (r : ℚ) / d < 1 := (div_lt_one hd).2 hr'
        refine ⟨r / d - 1 / 2, by linarith, by linarith, ?_, ?_⟩
        · simp only [ExtendedMantissa.ofMantissaAndAccuracy, true_iff]
          linarith
        · simp only [ExtendedMantissa.ofMantissaAndAccuracy, Bool.toNat_true, Nat.cast_one]
          ring

/-- A whole number of places has no more digits. -/
theorem holds_exact (m : Nat) : Holds (.ofMantissaAndAccuracy m .exact) m := by
  simpa [accuracyOfFraction] using holds_ofFraction m (r := 0) (d := 1) Nat.zero_lt_one

/-- Moving one digit below the last place keeps the number. -/
theorem Holds.shiftRightOne (h : Holds em x) : Holds em.shiftRightOne (x / 2) := by
  obtain ⟨t, ht, hlt, hsticky, rfl⟩ := h
  have hbit : (em.roundBit.toNat : ℚ) ≤ 1 := by exact_mod_cast Bool.toNat_le _
  have hdigit : (2 : ℚ) * (em.mantissa / 2 : Nat) + (em.mantissa % 2 != 0).toNat = em.mantissa := by
    have hmod : (em.mantissa % 2 != 0).toNat = em.mantissa % 2 := by
      rcases Nat.mod_two_eq_zero_or_one em.mantissa with hm | hm <;> simp [hm]
    rw [hmod]
    exact_mod_cast Nat.div_add_mod em.mantissa 2
  refine ⟨(em.roundBit.toNat / 2 + t) / 2, by positivity, by linarith, ?_, ?_⟩
  · have hrest : (em.roundBit.toNat / 2 + t) / 2 ≠ 0 ↔ em.roundBit = true ∨ t ≠ 0 := by
      cases em.roundBit with
      | false => simp
      | true =>
          simp only [Bool.toNat_true, true_or, iff_true]
          positivity
    rw [hrest, ← hsticky]
    simp [ExtendedMantissa.shiftRightOne]
  · simp only [ExtendedMantissa.shiftRightOne]
    linarith

/-- **Moving digits below the last place keeps the number.** -/
theorem Holds.shift (h : Holds em x) (n : Nat) : Holds (em >>> n) (x / 2 ^ n) := by
  induction n with
  | zero =>
      rw [pow_zero, div_one]
      exact h
  | succ n ih =>
      rw [pow_succ, ← div_div]
      exact ih.shiftRightOne

/-! ### Rounding the mantissa -/

/-- **The mantissa is rounded to the nearest one**, of two equally near ones to the even one. -/
theorem Holds.nearest (h : Holds em x) :
    2 * (em.roundedMantissa : ℚ) - 1 ≤ 2 * x ∧ 2 * x ≤ 2 * em.roundedMantissa + 1 ∧
      (em.roundedMantissa % 2 = 1 →
        2 * (em.roundedMantissa : ℚ) - 1 < 2 * x ∧ 2 * x < 2 * em.roundedMantissa + 1) := by
  obtain ⟨m, r, s⟩ := em
  obtain ⟨t, ht, hlt, hsticky, rfl⟩ := h
  cases r <;> cases s <;>
    simp only [ExtendedMantissa.roundedMantissa, ExtendedMantissa.accuracy, Accuracy.roundToNearestEven,
      Bool.toNat_true, Bool.toNat_false, Nat.cast_zero, Nat.cast_one, Nat.cast_add, true_iff, false_iff,
      Bool.false_eq_true, not_not, ne_eq] at hsticky ⊢
  · subst hsticky
    exact ⟨by linarith, by linarith, fun _ => ⟨by linarith, by linarith⟩⟩
  · exact ⟨by linarith, by linarith, fun _ => ⟨by linarith, by linarith⟩⟩
  · -- halfway, the even one of both is taken
    subst hsticky
    rcases Nat.mod_two_eq_zero_or_one m with hm | hm <;> rw [hm]
    · exact ⟨by norm_num; linarith, by norm_num; linarith, fun h => by omega⟩
    · exact ⟨by norm_num; linarith, by norm_num; linarith, fun h => by omega⟩
  · have hpos : 0 < t := lt_of_le_of_ne ht (Ne.symm hsticky)
    exact ⟨by linarith, by linarith, fun _ => ⟨by linarith, by linarith⟩⟩

/-! ### The exponent -/

/-- The exponent that a number with the mantissa `m` at the exponent `e` has if it is rounded. -/
def target (m : Nat) (e : Int) : Int := max (m.log2 + 1 + e - 53) (-1074)

theorem shiftToTargetExponent_eq (m : Nat) (e : Int) (a : Accuracy) :
    shiftToTargetExponent Format.binary64 m e a =
      (ExtendedMantissa.ofMantissaAndAccuracy m a >>> (target m e - e).toNat, e + (target m e - e).toNat) := rfl

/-- A mantissa of a double stays as it is. -/
theorem shiftToTargetExponent_of_lt {m : Nat} {e : Int} (hm : m < 2 ^ 53) (he : -1074 ≤ e) :
    shiftToTargetExponent Format.binary64 m e .exact = (⟨m, false, false⟩, e) := by
  have hlog : m.log2 < 53 := by
    by_cases hzero : m = 0
    · subst hzero
      decide
    · exact (Nat.log2_lt hzero).2 hm
  have hnone : (target m e - e).toNat = 0 := by
    unfold target
    omega
  rw [shiftToTargetExponent_eq, hnone, Nat.cast_zero, Int.add_zero]
  rfl

/-- A mantissa that has become too great by rounding is halved. -/
theorem shiftToTargetExponent_carry {e : Int} (he : -1074 ≤ e) :
    shiftToTargetExponent Format.binary64 (2 ^ 53) e .exact = (⟨2 ^ 52, false, false⟩, e + 1) := by
  have hone : (target (2 ^ 53) e - e).toNat = 1 := by
    unfold target
    rw [Nat.log2_two_pow]
    omega
  rw [shiftToTargetExponent_eq, hone]
  rfl

/-! ### What is rounded -/

section

variable {m : Nat} {q : Int} {y : ℚ}

/-- A number rounds to the nearest mantissa, if below a full one it is not where the steps are smaller. -/
theorem roundsTo_of_nearest (hnonneg : 0 ≤ y)
    (hnear : 2 * (m : ℚ) - 1 ≤ 2 * y ∧ 2 * y ≤ 2 * m + 1 ∧
      (m % 2 = 1 → 2 * (m : ℚ) - 1 < 2 * y ∧ 2 * y < 2 * m + 1))
    (hfull : shrinksBelow m q = true → (m : ℚ) ≤ y) : RoundsTo m q (y * 2 ^ q) := by
  have hstep : (0 : ℚ) < 2 ^ (q - 2) := zpow_pos two_pos _
  have hscale : y * 2 ^ q = 4 * y * 2 ^ (q - 2) := by
    have hsplit : (2 : ℚ) ^ q = 4 * 2 ^ (q - 2) := by
      rw [zpow_sub₀ two_ne_zero]
      ring
    rw [hsplit]
    ring
  obtain ⟨hlow, hhigh, hodd⟩ := hnear
  rw [RoundsTo, lowest, highest, hscale]
  split
  · next heven =>
      refine ⟨mul_le_mul_of_nonneg_right ?_ hstep.le, mul_le_mul_of_nonneg_right ?_ hstep.le⟩
      · split
        · next hshrinks =>
            have hle := hfull hshrinks
            have hsub : ((4 * m - 1 : Nat) : ℚ) ≤ ((4 * m : Nat) : ℚ) := by exact_mod_cast Nat.sub_le _ _
            push_cast at hsub
            linarith
        · rcases Nat.eq_zero_or_pos m with rfl | hpos
          · simpa using hnonneg
          · rw [Nat.cast_sub (by omega)]
            push_cast
            linarith
      · push_cast
        linarith
  · next heven =>
      obtain ⟨hlow', hhigh'⟩ := hodd (by omega)
      have hsteady : shrinksBelow m q = false := by
        have hne : decide (m = Nat.pow 2 52) = false := decide_eq_false fun h => by
          rw [h] at heven
          exact heven rfl
        rw [shrinksBelow, hne, Bool.false_and]
      refine ⟨mul_lt_mul_of_pos_right ?_ hstep, mul_lt_mul_of_pos_right ?_ hstep⟩
      · rw [hsteady, if_neg Bool.false_ne_true, Nat.cast_sub (by omega)]
        push_cast
        linarith
      · push_cast
        linarith

/-- A number just below a power of two rounds to it. -/
theorem roundsTo_carry (hq : -1074 ≤ q) (hlow : 2 ^ 54 - 1 ≤ 2 * y) (hhigh : y < 2 ^ 53) :
    RoundsTo (2 ^ 52) (q + 1) (y * 2 ^ q) := by
  have hstep : (0 : ℚ) < 2 ^ (q + 1 - 2) := zpow_pos two_pos _
  have hscale : y * 2 ^ q = 2 * y * 2 ^ (q + 1 - 2) := by
    have hsplit : (2 : ℚ) ^ q = 2 * 2 ^ (q + 1 - 2) := by
      rw [← zpow_one_add₀ two_ne_zero]
      congr 1
      omega
    rw [hsplit]
    ring
  have hshrinks : shrinksBelow (2 ^ 52) (q + 1) = true := by
    have hgreater : -1074 < q + 1 := by omega
    simp [shrinksBelow, hgreater]
  rw [RoundsTo, if_pos (by norm_num), lowest, highest, hscale, hshrinks, if_pos rfl]
  refine ⟨mul_le_mul_of_nonneg_right ?_ hstep.le, mul_le_mul_of_nonneg_right ?_ hstep.le⟩
  · refine le_trans (le_of_eq ?_) hlow
    norm_num
  · push_cast
    linarith

end

variable {m : Nat} {e : Int} {a : Accuracy}

theorem mantissa_ofMantissaAndAccuracy (m : Nat) (a : Accuracy) :
    (ExtendedMantissa.ofMantissaAndAccuracy m a).mantissa = m := by
  cases a with
  | exact => rfl
  | inexact o => cases o <;> rfl

/-- A number is between its mantissa and the next one. -/
theorem Holds.between (h : Holds em x) : (em.mantissa : ℚ) ≤ x ∧ x < em.mantissa + 1 := by
  obtain ⟨t, ht, hlt, -, rfl⟩ := h
  have hbit : (em.roundBit.toNat : ℚ) ≤ 1 := by exact_mod_cast Bool.toNat_le _
  have hbit' : (0 : ℚ) ≤ em.roundBit.toNat := Nat.cast_nonneg _
  constructor <;> linarith

/-- The place at which a number is rounded is at most the 53rd of its mantissa. -/
theorem Holds.lt_places (h : Holds (.ofMantissaAndAccuracy m a) x) {n : Nat} (hn : e + n = target m e) :
    x / 2 ^ n < 2 ^ 53 := by
  have hlt := h.between.2
  rw [mantissa_ofMantissaAndAccuracy] at hlt
  have hexp : m.log2 + 1 ≤ 53 + n := by
    unfold target at hn
    omega
  have hlog : m + 1 ≤ 2 ^ (m.log2 + 1) := Nat.lt_log2_self
  have hpow : (m + 1 : ℚ) ≤ 2 ^ 53 * 2 ^ n := by
    rw [← pow_add]
    exact_mod_cast hlog.trans (Nat.pow_le_pow_right two_pos hexp)
  rw [div_lt_iff₀ (by positivity)]
  exact hlt.trans_le hpow

/-- It is the 53rd one, if the exponent is not the least one. -/
theorem Holds.places_le (h : Holds (.ofMantissaAndAccuracy m a) x) {n : Nat} (hn : e + n = target m e)
    (hgreater : -1074 < target m e) : 2 ^ 52 ≤ x / 2 ^ n := by
  have hle := h.between.1
  rw [mantissa_ofMantissaAndAccuracy] at hle
  have hexp : m.log2 = 52 + n := by
    unfold target at hn hgreater
    omega
  have hm : m ≠ 0 := by
    rintro rfl
    simp at hexp
    omega
  have hpow : (2 : ℚ) ^ 52 * 2 ^ n ≤ m := by
    rw [← pow_add, ← hexp]
    exact_mod_cast Nat.log2_self_le hm
  rw [le_div_iff₀ (by positivity)]
  exact hpow.trans hle

/-- **What is rounded is what the number rounds to**, if the mantissa has as many digits as a double has, or more. -/
theorem exists_roundWithAccuracy (h : Holds (.ofMantissaAndAccuracy m a) x) (he : e ≤ target m e) (s : Sign) :
    ∃ m' q, IsRounded m' q ∧ RoundsTo m' q (x * 2 ^ e) ∧
      ∀ hm : 0 < m', roundWithAccuracy Format.binary64 s m e a = .finite s m' q hm := by
  obtain ⟨n, hn⟩ := Int.le.dest he
  have hleast : -1074 ≤ target m e := le_max_right _ _
  have hbelow := h.lt_places hn
  have hfull := h.places_le hn
  have hnonneg : 0 ≤ x / 2 ^ n := div_nonneg ((Nat.cast_nonneg _).trans h.between.1) (by positivity)
  have hnear := (h.shift n).nearest
  have hscale : x * 2 ^ e = x / 2 ^ n * 2 ^ target m e := by
    rw [← hn, zpow_add₀ two_ne_zero, zpow_natCast]
    field_simp
  rw [hscale]
  generalize hr : (ExtendedMantissa.ofMantissaAndAccuracy m a >>> n).roundedMantissa = r at hnear
  generalize x / 2 ^ n = y at *
  have hrle : r ≤ 2 ^ 53 := by
    have hlt' : (r : ℚ) < 2 ^ 53 + 1 := by linarith [hnear.1]
    exact Nat.lt_succ_iff.1 (by exact_mod_cast hlt')
  have hfirst : shiftToTargetExponent Format.binary64 m e a =
      (ExtendedMantissa.ofMantissaAndAccuracy m a >>> n, target m e) := by
    have hn' : (target m e - e).toNat = n := by omega
    rw [shiftToTargetExponent_eq, hn', hn]
  rcases Nat.lt_or_eq_of_le hrle with hlt' | rfl
  · refine ⟨r, target m e, ⟨hlt', hleast, fun hgreater => ?_⟩, ?_, fun hm => ?_⟩
    · have hlt : (2 : ℚ) ^ 52 < r + 1 := by linarith [hfull hgreater, hnear.2.1]
      exact Nat.lt_succ_iff.1 (by exact_mod_cast hlt)
    · refine roundsTo_of_nearest hnonneg hnear fun hshrinks => ?_
      obtain ⟨hmantissa, hgreater⟩ : r = 2 ^ 52 ∧ -1074 < target m e := by simpa [shrinksBelow] using hshrinks
      rw [hmantissa]
      exact_mod_cast hfull hgreater
    · simp only [roundWithAccuracy, hfirst, hr, shiftToTargetExponent_of_lt hlt' hleast]
      exact dif_neg hm.ne'
  · refine ⟨2 ^ 52, target m e + 1, ⟨by norm_num, by omega, fun _ => le_rfl⟩, ?_, fun hm => ?_⟩
    · refine roundsTo_carry hleast ?_ hbelow
      have hlow := hnear.1
      push_cast at hlow
      linarith
    · simp only [roundWithAccuracy, hfirst, hr, shiftToTargetExponent_carry hleast]
      exact dif_neg hm.ne'

end Decimal

end MatrixCalc
