/-
**A numeral is read as the double that it rounds to.**

A decimal number is read by a product or quotient of two whole numbers, or of two doubles if both are exact.  So if
the number rounds to a double, that is what is read, and a double that is written with its shortest decimal is read
again.  A number so great or so small that no arithmetic is done rounds to no double but infinity or zero.

Main results:

* `MatrixCalc.Decimal.unpack_toUInt64`, `MatrixCalc.Decimal.exists_unpack_power` — whole numbers and powers of ten that
  are exact;
* `MatrixCalc.Decimal.ofScientific_of_roundsTo` — a decimal number is read as what it rounds to;
* `MatrixCalc.Decimal.Numeral.toFloat_of_roundsTo` — **a numeral is read as the double that it rounds to**.
-/

import MatrixCalc.Proofs.Decimal.Arithmetic

set_option autoImplicit false

namespace MatrixCalc

namespace Decimal

open Float.Model UnpackedFloat

/-! ### Whole numbers and powers of ten -/

/-- A whole number with a full mantissa. -/
theorem isCanonical_shiftLeft {c : Nat} (hc : 0 < c) (hlt : c < 2 ^ 53) :
    IsCanonical (c <<< (52 - c.log2)) (c.log2 - 52) := by
  have hlog : c.log2 < 53 := (Nat.log2_lt hc.ne').2 hlt
  have hpow (n : Nat) : 2 ^ (c.log2 + n) * 2 ^ (52 - c.log2) = 2 ^ (52 + n) := by
    rw [← Nat.pow_add]
    congr 1
    omega
  rw [Nat.shiftLeft_eq]
  refine ⟨?_, by omega, by omega, fun _ => ?_⟩
  · rw [← hpow 1]
    exact Nat.mul_lt_mul_of_pos_right Nat.lt_log2_self (Nat.two_pow_pos _)
  · rw [← hpow 0]
    exact Nat.mul_le_mul_right _ (Nat.log2_self_le hc.ne')

/-- A whole number of at most as many places as a double has is exact. -/
theorem unpack_toUInt64 {c : Nat} (hc : 0 < c) (hlt : c < 2 ^ 53) (hm : 0 < c <<< (52 - c.log2)) :
    c.toUInt64.toFloat.toModel.unpack = .finite .positive (c <<< (52 - c.log2)) (c.log2 - 52) hm := by
  have hnat : c.toUInt64.toNat = c := by
    rw [UInt64.toNat_ofNat']
    omega
  have hlog : c.log2 < 53 := (Nat.log2_lt hc.ne').2 hlt
  have htarget : Format.binary64.targetExponent (totalExponent c 0) = c.log2 - 52 := by
    show max ((c.log2 : Int) + 1 + 0 - 53) (-1074) = _
    omega
  have hround : UnpackedFloat.ofUInt64 Format.binary64 c.toUInt64 =
      UnpackedFloat.round Format.binary64 .positive c 0 := by
    rw [UnpackedFloat.ofUInt64, hnat]
    show UnpackedFloat.normalize _ (c : Int) 0 _ = _
    unfold UnpackedFloat.normalize
    rw [compare_gt_iff_gt.2 (by exact_mod_cast hc)]
    rfl
  have hcanonical := isCanonical_shiftLeft hc hlt
  have hexact : UnpackedFloat.round Format.binary64 .positive c 0 =
      .finite .positive (c <<< (52 - c.log2)) (c.log2 - 52) hm := by
    have hshift : (0 - ((c.log2 : Int) - 52)).toNat = 52 - c.log2 := by omega
    simp only [UnpackedFloat.round, htarget, decreaseExponent, hshift]
    rw [← roundWithAccuracy_self .positive hcanonical.isRounded hm]
    congr 1
    omega
  show (pack (UnpackedFloat.ofUInt64 Format.binary64 c.toUInt64)).unpack = _
  rw [hround, hexact, unpack_pack_of_isCanonical _ hcanonical hm]

/-- The powers of ten that are exact, with full mantissas. -/
theorem form_power : ∀ k : Fin 23,
    form (getElem Float.exactlyRepresentablePowersOfTen k.val k.isLt) =
        .finite false (10 ^ k.val * 2 ^ 52 / 2 ^ (10 ^ k.val).log2) ((10 ^ k.val).log2 - 52) ∧
      2 ^ 52 ≤ 10 ^ k.val * 2 ^ 52 / 2 ^ (10 ^ k.val).log2 ∧
      10 ^ k.val * 2 ^ 52 / 2 ^ (10 ^ k.val).log2 * 2 ^ (10 ^ k.val).log2 = 10 ^ k.val * 2 ^ 52 := by
  decide +kernel


/-- The unpacked power of ten. -/
theorem exists_unpack_power {k : Nat} (hk : k < Float.exactlyRepresentablePowersOfTen.size) :
    ∃ m q, ∃ hm : 0 < m,
      (getElem Float.exactlyRepresentablePowersOfTen k hk).toModel.unpack = .finite .positive m q hm ∧
        2 ^ 52 ≤ m ∧ (m * 2 ^ q : ℚ) = 10 ^ k := by
  obtain ⟨hform, hfull, hvalue⟩ := form_power ⟨k, hk⟩
  have hm := (Nat.two_pow_pos 52).trans_le hfull
  refine ⟨_, _, hm, unpack_of_form hform hm, hfull, ?_⟩
  generalize 10 ^ k * 2 ^ 52 / 2 ^ (10 ^ k).log2 = m at hvalue
  have hvalue' : (m * 2 ^ (10 ^ k).log2 : ℚ) = 10 ^ k * 2 ^ 52 := by exact_mod_cast hvalue
  rw [zpow_sub₀ two_ne_zero, zpow_natCast, ← mul_div_assoc, hvalue']
  simp

/-- A whole number is the value of its full mantissa. -/
theorem cast_shiftLeft {c : Nat} (hc : 0 < c) (hlt : c < 2 ^ 53) :
    ((c <<< (52 - c.log2) : Nat) : ℚ) * 2 ^ ((c.log2 : Int) - 52) = c := by
  have hlog : c.log2 < 53 := (Nat.log2_lt hc.ne').2 hlt
  have hzero : ((52 - c.log2 : Nat) : Int) + (c.log2 - 52) = 0 := by omega
  rw [Nat.shiftLeft_eq, Nat.cast_mul, Nat.cast_pow, Nat.cast_ofNat, mul_assoc, ← zpow_natCast,
    ← zpow_add₀ two_ne_zero, hzero, zpow_zero, mul_one]

/-! ### Decimal numbers -/

variable {z : Float} {m : Nat} {q : Int}

/-- Of two exact doubles, the product or the quotient is rounded. -/
theorem ofScientific_of_exact (hz : form z = .finite false m q) (hm : 0 < m) {c : Nat} {e : Int} (hc : 0 < c)
    (hlt : c < 2 ^ 53) (he : e.natAbs ≤ 22) (hv : RoundsTo m q (c * 10 ^ e)) :
    Float.ofScientific c (decide (e < 0)) e.natAbs = z := by
  have hm₁ : 0 < c <<< (52 - c.log2) := by
    rw [Nat.shiftLeft_eq]
    positivity
  have hk : e.natAbs < Float.exactlyRepresentablePowersOfTen.size := Nat.lt_succ_of_le he
  obtain ⟨m₂, q₂, hm₂, hunpack, hfull, hvalue⟩ := exists_unpack_power hk
  unfold Float.ofScientific
  rw [dif_pos ⟨hlt, he⟩]
  simp only [decide_eq_true_eq]
  split
  · next hneg =>
      have habs : e = -(e.natAbs : Int) := by omega
      show Float.ofModel (pack (div Format.binary64 _
        (getElem Float.exactlyRepresentablePowersOfTen e.natAbs hk).toModel.unpack)) = z
      rw [unpack_toUInt64 hc hlt hm₁, hunpack]
      refine pack_div hz hm hm₁ hm₂ ?_
      rwa [cast_shiftLeft hc hlt, hvalue, ← zpow_natCast, div_eq_mul_inv, ← zpow_neg, ← habs]
  · next hneg =>
      have habs : (e.natAbs : Int) = e := by omega
      show Float.ofModel (pack (mul Format.binary64 _
        (getElem Float.exactlyRepresentablePowersOfTen e.natAbs hk).toModel.unpack)) = z
      rw [unpack_toUInt64 hc hlt hm₁, hunpack]
      refine pack_mul hz hm hm₁ hm₂ (hfull.trans (Nat.le_mul_of_pos_left _ hm₁)) ?_
      rwa [cast_shiftLeft hc hlt, hvalue, ← zpow_natCast, habs]

/-- Of two whole numbers, the product or the quotient is rounded. -/
theorem ofModel_pack_ofScientific (hz : form z = .finite false m q) (hm : 0 < m) {c : Nat} {e : Int} (hc : 0 < c)
    (hlow : -400 ≤ e + c.log2) (hhigh : e ≤ 400) (hv : RoundsTo m q (c * 10 ^ e)) :
    Float.ofModel (pack (UnpackedFloat.ofScientific Format.binary64 c e)) = z := by
  have hbits : (2 : Int) ^ Format.binary64.exponentBits = 2048 := rfl
  unfold UnpackedFloat.ofScientific
  rw [dif_neg hc.ne', hbits, if_neg (by omega), if_neg (by omega)]
  split
  · next hpos =>
      have habs : (e.toNat : Int) = e := Int.toNat_of_nonneg hpos
      have hshift : ((c <<< 53 : Nat) : ℚ) * 2 ^ (-(53 : Nat) : Int) = c := by
        rw [Nat.shiftLeft_eq, Nat.cast_mul, Nat.cast_pow, Nat.cast_ofNat, mul_assoc, ← zpow_natCast,
          ← zpow_add₀ two_ne_zero, Int.add_right_neg, zpow_zero, mul_one]
      have hpower : ((10 ^ e.toNat : Nat) : ℚ) * 2 ^ (0 : Int) = 10 ^ e := by
        rw [zpow_zero, mul_one, Nat.cast_pow, Nat.cast_ofNat, ← zpow_natCast, habs]
      refine pack_mul hz hm _ _ ?_ ?_
      · calc 2 ^ 52 ≤ 2 ^ 53 := by decide
          _ ≤ c * 2 ^ 53 := Nat.le_mul_of_pos_left _ hc
          _ = c <<< 53 := (Nat.shiftLeft_eq ..).symm
          _ ≤ c <<< 53 * 10 ^ e.toNat := Nat.le_mul_of_pos_right _ (Nat.pow_pos (by decide))
      · show RoundsTo m q (((c <<< 53 : Nat) : ℚ) * 2 ^ (-(53 : Nat) : Int) * _)
        rwa [hshift, hpower]
  · next hneg =>
      have habs : ((-e).toNat : Int) = -e := by omega
      refine pack_div hz hm _ _ ?_
      rwa [zpow_zero, mul_one, mul_one, Nat.cast_pow, Nat.cast_ofNat, ← zpow_natCast, habs, zpow_neg, div_inv_eq_mul]

/-- **A decimal number is read as the double that it rounds to.** -/
theorem ofScientific_of_roundsTo (hz : form z = .finite false m q) (hm : 0 < m) {c : Nat} {e : Int} (hc : 0 < c)
    (hlow : -400 ≤ e + c.log2) (hhigh : e ≤ 400) (hv : RoundsTo m q (c * 10 ^ e)) :
    Float.ofScientific c (decide (e < 0)) e.natAbs = z := by
  by_cases hsmall : c < 2 ^ 53 ∧ e.natAbs ≤ 22
  · exact ofScientific_of_exact hz hm hc hsmall.1 hsmall.2 hv
  · have hexponent : (if decide (e < 0) = true then Int.negOfNat e.natAbs else Int.ofNat e.natAbs) = e := by
      rcases Int.lt_or_le e 0 with he | he
      · rw [decide_eq_true he, if_pos rfl, Int.negOfNat_eq]
        show -(e.natAbs : Int) = e
        omega
      · rw [decide_eq_false he.not_gt, if_neg Bool.false_ne_true]
        exact Int.natAbs_of_nonneg he
    unfold Float.ofScientific
    rw [dif_neg hsmall, hexponent]
    exact ofModel_pack_ofScientific hz hm hc hlow hhigh hv

/-- Two to the thirty-third is at most ten to the tenth. -/
theorem two_pow_le_ten_pow {a b : Nat} (h : 10 * b ≤ 33 * a) : (2 : ℚ) ^ b ≤ 10 ^ a := by
  exact_mod_cast pow_two_le_pow_ten h

/-- The numbers that round to a double other than zero are less than `10 ^ 401` and more than `10 ^ (-401)`. -/
theorem RoundsTo.bounds (h : IsCanonical m q) (hm : 0 < m) {v : ℚ} (hv : RoundsTo m q v) :
    2 * 10 ^ (-(401 : Nat) : Int) ≤ v ∧ v < 10 ^ (401 : Nat) := by
  have hstep : (0 : ℚ) < 2 ^ (q - 2) := zpow_pos two_pos _
  have hleast := h.least
  have hgreatest := h.greatest
  have hlt := h.mantissa_lt
  constructor
  · have hlow : (2 : ℚ) ≤ (4 * m - if shrinksBelow m q then 1 else 2 : Nat) := by
      refine Nat.ofNat_le_cast.2 ?_
      split <;> omega
    have hten : (10 : ℚ) ^ (-(401 : Nat) : Int) ≤ 2 ^ (-(1076 : Nat) : Int) := by
      rw [zpow_neg, zpow_neg, zpow_natCast, zpow_natCast]
      exact inv_anti₀ (pow_pos two_pos _) (two_pow_le_ten_pow (by decide))
    have hleast' : (2 : ℚ) ^ (-(1076 : Nat) : Int) ≤ 2 ^ (q - 2) := zpow_le_zpow_right₀ one_le_two (by omega)
    calc (2 : ℚ) * 10 ^ (-(401 : Nat) : Int) ≤ 2 * 2 ^ (q - 2) :=
          mul_le_mul_of_nonneg_left (hten.trans hleast') two_pos.le
      _ ≤ lowest m q := mul_le_mul_of_nonneg_right hlow hstep.le
      _ ≤ v := hv.between.1
  · have hhigh : ((4 * m + 2 : Nat) : ℚ) ≤ 2 ^ (55 : Int) := by
      exact_mod_cast (by omega : 4 * m + 2 ≤ 2 ^ 55)
    calc v ≤ highest m q := hv.between.2
      _ ≤ 2 ^ (55 : Int) * 2 ^ (q - 2) := mul_le_mul_of_nonneg_right hhigh hstep.le
      _ = 2 ^ (55 + (q - 2)) := (zpow_add₀ two_ne_zero ..).symm
      _ ≤ 2 ^ ((1024 : Nat) : Int) := zpow_le_zpow_right₀ one_le_two (by omega)
      _ ≤ 10 ^ 400 := by
          rw [zpow_natCast]
          exact two_pow_le_ten_pow (by decide)
      _ < 10 ^ 401 := pow_lt_pow_right₀ (by norm_num) (by decide)

/-- **A numeral is read as the double that it rounds to.** -/
theorem Numeral.toFloat_of_roundsTo (hz : form z = .finite false m q) (hm : 0 < m) {n : Numeral}
    (hv : RoundsTo m q n.value) : n.toFloat = z := by
  obtain ⟨hlow, hhigh⟩ := hv.bounds (isCanonical_of_form hz) hm
  have hten : (0 : ℚ) < 10 ^ n.exponent := by positivity
  have hdigits : 0 < n.digits := by
    refine Nat.pos_of_ne_zero fun hzero => ?_
    rw [Numeral.value, hzero, Nat.cast_zero, zero_mul] at hlow
    exact absurd hlow (not_le.2 (by positivity))
  have hexponent : n.exponent ≤ 400 := by
    by_contra hgreater
    refine absurd hhigh (not_lt.2 ?_)
    calc (10 : ℚ) ^ 401 = 10 ^ ((401 : Nat) : Int) := (zpow_natCast ..).symm
      _ ≤ 10 ^ n.exponent := zpow_le_zpow_right₀ (by norm_num) (by omega)
      _ ≤ n.value := le_mul_of_one_le_left hten.le (by exact_mod_cast hdigits)
  have hplaces : -400 ≤ n.exponent + n.digits.log2 := by
    by_contra hless
    refine absurd hlow (not_le.2 ?_)
    have hlog : (n.digits : ℚ) < 2 * 10 ^ n.digits.log2 := by
      have hbelow : n.digits < 2 ^ (n.digits.log2 + 1) := Nat.lt_log2_self
      have hbase : 2 ^ n.digits.log2 ≤ 10 ^ n.digits.log2 := Nat.pow_le_pow_left (by decide) _
      exact_mod_cast (show n.digits < 2 * 10 ^ n.digits.log2 by omega)
    calc n.value < 2 * 10 ^ n.digits.log2 * 10 ^ n.exponent := mul_lt_mul_of_pos_right hlog hten
      _ = 2 * 10 ^ (n.digits.log2 + n.exponent) := by
          rw [zpow_add₀ (by norm_num), zpow_natCast, mul_assoc]
      _ ≤ 2 * 10 ^ (-(401 : Nat) : Int) :=
          mul_le_mul_of_nonneg_left (zpow_le_zpow_right₀ (by norm_num) (by omega)) two_pos.le
  rw [Numeral.toFloat, if_neg hdigits.ne', if_neg (by omega), if_neg (by omega)]
  exact ofScientific_of_roundsTo hz hm hdigits hplaces hexponent hv

end Decimal

end MatrixCalc
