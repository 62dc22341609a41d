/-
**Zeros among doubles.**

A double equals zero if it is zero of either sign.  Subtracting a zero leaves a double what it is, as far as
being zero goes, and a zero times a finite double is zero.  A double that is not finite, infinite or no number,
stays so in products and differences, whatever else is in them.  So if a difference `t - p * f` is zero, `f`
was finite.

Main results:

* `MatrixCalc.Decimal.beq_zero_iff` — what equals zero;
* `MatrixCalc.Decimal.unpack_pack_finite` — a double with another sign has the same digits;
* `MatrixCalc.Decimal.negligible_zero` — without a tolerance only zero counts as zero;
* `MatrixCalc.Decimal.sub_mul_zero`, `MatrixCalc.Decimal.sub_mul_ne_zero` — **what is left of a double if a
  multiple of zero is subtracted**.
-/

import Mathlib
import MatrixCalc.Dense.Numeric

set_option autoImplicit false

namespace MatrixCalc

namespace Decimal

open Float.Model UnpackedFloat

/-! ### Forms of doubles -/

/-- A double equals zero if it is zero of either sign. -/
theorem beq_zero_iff {x : Float} : (x == 0) = true ↔ ∃ s, x.toModel.unpack = .zero s := by
  have hbeq : (x == 0) = (x.toModel.unpack.compare (.zero .positive) == some .eq) := rfl
  rw [hbeq, beq_iff_eq]
  generalize x.toModel.unpack = u
  constructor
  · intro hcompare
    cases u with
    | zero s => exact ⟨s, rfl⟩
    | notANumber => cases hcompare
    | infinity s => cases s <;> cases hcompare
    | finite s _ _ _ => cases s <;> cases hcompare
  · rintro ⟨s, rfl⟩
    rfl

theorem unpack_pack_zero (s : Sign) : (pack (.zero s)).unpack = .zero s := by
  cases s <;> rfl

theorem unpack_pack_infinity (s : Sign) : (pack (.infinity s)).unpack = .infinity s := by
  cases s <;> rfl

theorem unpack_pack_notANumber : (pack .notANumber).unpack = .notANumber := rfl

/-- The sign of what is put together is the sign it is put together with. -/
theorem ofBitVec_unpackSign_packComponents (s : Sign) (e : BitVec 11) (m : BitVec 52) :
    Sign.ofBitVec (unpackSign (packComponents Format.binary64 s e m)) = s := by
  have hsign : unpackSign (packComponents Format.binary64 s e m) = s.toBitVec := by
    show (s.toBitVec ++ e ++ m).extractLsb' 63 1 = s.toBitVec
    rw [BitVec.extractLsb'_append_eq_of_le (by decide), BitVec.extractLsb'_append_eq_of_le (by decide)]
    exact BitVec.extractLsb'_eq_self
  rw [hsign]
  cases s <;> rfl

theorem toNat_one_append (m : BitVec 52) : (1#1 ++ m).toNat = 2 ^ 52 + m.toNat := by
  rw [BitVec.toNat_append, ← Nat.shiftLeft_add_eq_or_of_lt m.isLt, Nat.shiftLeft_eq]
  simp

/-- What a finite double other than zero is made of: with the lowest exponent the digits as they are, else
the digits behind a one. -/
theorem fields_of_unpack {b : BitVec 64} {s : Sign} {m : Nat} {e : Int} {hm : 0 < m}
    (h : unpack Format.binary64 b = .finite s m e hm) :
    let digits := (@unpackMantissa Format.binary64 b).toNat
    let power := (@unpackExponent Format.binary64 b).toNat
    (power = 0 ∧ m = digits ∧ e = -1074) ∨
    (0 < power ∧ power < 2047 ∧ m = 2 ^ 52 + digits ∧ e = power - 1075) := by
  unfold UnpackedFloat.unpack at h
  simp only at h
  split at h
  · split at h <;> cases h
  · rename_i hmax
    split at h
    · rename_i hmin
      split at h
      · cases h
      · cases h
        refine .inl ⟨by rw [hmin]; rfl, rfl, ?_⟩
        rw [hmin]
        rfl
    · rename_i hmin
      cases h
      refine .inr ⟨?_, ?_, toNat_one_append _, rfl⟩
      · exact Nat.pos_of_ne_zero fun h0 => hmin (BitVec.eq_of_toNat_eq h0)
      · have hlt := (@unpackExponent Format.binary64 b).isLt
        have hne : (@unpackExponent Format.binary64 b).toNat ≠ 2047 :=
          fun h0 => hmax (BitVec.eq_of_toNat_eq h0)
        have hpow : 2 ^ Format.binary64.exponentBits = 2048 := rfl
        omega

/-- A double with another sign is made of the same digits. -/
theorem pack_of_unpack {b : BitVec 64} {s : Sign} {m : Nat} {e : Int} {hm : 0 < m}
    (h : unpack Format.binary64 b = .finite s m e hm) (t : Sign) :
    pack Format.binary64 (.finite t m e hm) =
      packComponents Format.binary64 t (unpackExponent b) (unpackMantissa b) := by
  have hfields := fields_of_unpack h
  have hdigits := (@unpackMantissa Format.binary64 b).isLt
  have hwidth : 2 ^ Format.binary64.mantissaBitsWithoutImplicit = 2 ^ 52 := rfl
  have hbias : (Format.binary64.exponentBias : Int) = 1023 := rfl
  have hbits : Format.binary64.mantissaBits = 53 := rfl
  simp only [UnpackedFloat.pack, hbits]
  obtain ⟨hpower, hdigit, rfl⟩ | ⟨hpos, hlt, hdigit, rfl⟩ := hfields
  · have hlog : m.log2 < 52 := (Nat.log2_lt hm.ne').mpr (by omega)
    rw [if_neg (by rw [hbias]; decide), if_neg (by omega)]
    refine congrArg₂ (packComponents Format.binary64 t) ?_ ?_
    · exact BitVec.eq_of_toNat_eq hpower.symm
    · rw [hdigit, BitVec.ofNat_toNat, BitVec.setWidth_eq]
  · have hlog : m.log2 = 52 := (Nat.log2_eq_iff hm.ne').mpr (by omega)
    have hexponent : (((@unpackExponent Format.binary64 b).toNat : Int) - 1075 + 1023 + (52 : Nat)).toNat =
        (@unpackExponent Format.binary64 b).toNat := by
      omega
    have hpow : 2 ^ Format.binary64.exponentBits = 2048 := rfl
    rw [hbias, hpow]
    rw [hexponent, if_neg (by omega), if_pos (by omega)]
    refine congrArg₂ (packComponents Format.binary64 t) ?_ ?_
    · rw [BitVec.ofNat_toNat, BitVec.setWidth_eq]
    · refine BitVec.eq_of_toNat_eq ?_
      rw [BitVec.toNat_ofNat, hdigit]
      omega

/-- **A double with another sign has the same digits.** -/
theorem unpack_pack_finite {x : Float} {s : Sign} {m : Nat} {e : Int} {hm : 0 < m}
    (h : x.toModel.unpack = .finite s m e hm) (t : Sign) :
    (pack (.finite t m e hm)).unpack = .finite t m e hm := by
  have hpack : (pack (.finite t m e hm)).toBits.toBitVec =
      UnpackedFloat.pack Format.binary64 (.finite t m e hm) := rfl
  have h' : UnpackedFloat.unpack Format.binary64 x.toModel.toBits.toBitVec = .finite s m e hm := h
  rw [Float.Model.unpack, hpack, pack_of_unpack h']
  unfold UnpackedFloat.unpack at h' ⊢
  simp only [unpackMantissa_packComponents, unpackExponent_packComponents] at h' ⊢
  rw [ofBitVec_unpackSign_packComponents]
  split at h'
  · split at h' <;> cases h'
  · next hmax =>
      split at h'
      · next hmin =>
          split at h'
          · cases h'
          · next hdigits =>
              cases h'
              rw [if_neg hmax, if_pos hmin, dif_neg hdigits]
      · next hmin =>
          cases h'
          rw [if_neg hmax, if_neg hmin]

/-! ### Zeros in differences and products -/

/-- The difference of two doubles is rounded as its form is packed. -/
theorem unpack_sub (x y : Float) : (x - y).toModel.unpack =
    (pack (sub Format.binary64 x.toModel.unpack y.toModel.unpack)).unpack := rfl

/-- The product of two doubles is rounded as its form is packed. -/
theorem unpack_mul (x y : Float) : (x * y).toModel.unpack =
    (pack (mul Format.binary64 x.toModel.unpack y.toModel.unpack)).unpack := rfl

/-- What is infinite or no number is packed as such. -/
theorem isFinite_unpack_pack {u : UnpackedFloat} (h : u.isFinite = false) :
    (pack u).unpack.isFinite = false := by
  cases u with
  | notANumber => rfl
  | infinity s => rw [unpack_pack_infinity, h]
  | zero => cases h
  | finite => cases h

/-- Zeros are finite. -/
theorem isFinite_of_beq_zero {x : Float} (h : (x == 0) = true) : x.isFinite = true := by
  obtain ⟨s, hs⟩ := beq_zero_iff.mp h
  show x.toModel.unpack.isFinite = true
  rw [hs]
  rfl

/-- What is not finite stays so if it is multiplied. -/
theorem isFinite_mul {f : Float} (h : f.isFinite = false) (p : Float) : (p * f).isFinite = false := by
  have h' : f.toModel.unpack.isFinite = false := h
  show (p * f).toModel.unpack.isFinite = false
  rw [unpack_mul]
  refine isFinite_unpack_pack ?_
  generalize f.toModel.unpack = u at h'
  generalize p.toModel.unpack = v
  cases u with
  | notANumber => cases v <;> rfl
  | infinity => cases v <;> rfl
  | zero => cases h'
  | finite => cases h'

/-- What is not finite stays so if it is subtracted. -/
theorem isFinite_sub {y : Float} (h : y.isFinite = false) (x : Float) : (x - y).isFinite = false := by
  have h' : y.toModel.unpack.isFinite = false := h
  show (x - y).toModel.unpack.isFinite = false
  rw [unpack_sub]
  refine isFinite_unpack_pack ?_
  generalize y.toModel.unpack = u at h'
  generalize x.toModel.unpack = v
  cases u with
  | notANumber => cases v <;> rfl
  | infinity s =>
      cases v with
      | infinity t => cases s <;> cases t <;> rfl
      | _ => rfl
  | zero => cases h'
  | finite => cases h'

/-- A zero times a finite double is zero. -/
theorem zero_mul_of_isFinite {z f : Float} (hz : (z == 0) = true) (hf : f.isFinite = true) :
    (z * f == 0) = true := by
  obtain ⟨s, hs⟩ := beq_zero_iff.mp hz
  rw [beq_zero_iff, unpack_mul, hs]
  have hf' : f.toModel.unpack.isFinite = true := hf
  generalize f.toModel.unpack = u at hf'
  cases u with
  | notANumber => cases hf'
  | infinity => cases hf'
  | zero t => exact ⟨s * t, unpack_pack_zero _⟩
  | finite t => exact ⟨s * t, unpack_pack_zero _⟩

/-- **Subtracting a zero leaves zeros zero, and other doubles other than zero.** -/
theorem sub_zero_iff {z : Float} (hz : (z == 0) = true) (x : Float) : (x - z == 0) = (x == 0) := by
  obtain ⟨t, ht⟩ := beq_zero_iff.mp hz
  refine Bool.eq_iff_iff.mpr ?_
  rw [beq_zero_iff, beq_zero_iff, unpack_sub, ht]
  cases hx : x.toModel.unpack with
  | notANumber =>
      have hsub : sub Format.binary64 .notANumber (.zero t) = .notANumber := rfl
      rw [hsub, unpack_pack_notANumber]
  | infinity s =>
      have hsub : sub Format.binary64 (.infinity s) (.zero t) = .infinity s := rfl
      rw [hsub, unpack_pack_infinity]
  | zero s =>
      have hsub : ∃ r, sub Format.binary64 (.zero s) (.zero t) = .zero r := by
        cases s <;> cases t <;> exact ⟨_, rfl⟩
      obtain ⟨r, hr⟩ := hsub
      rw [hr, unpack_pack_zero]
      exact ⟨fun _ => ⟨s, rfl⟩, fun _ => ⟨r, rfl⟩⟩
  | finite s m e hm =>
      have hsub : sub Format.binary64 (.finite s m e hm) (.zero t) = .finite s m e hm := rfl
      rw [hsub, unpack_pack_finite hx]

/-- **Subtracting a multiple of zero leaves zeros zero**, if the factor has made a difference zero. -/
theorem sub_mul_zero {t p f w z : Float} (h : (t - p * f == 0) = true) (hw : (w == 0) = true)
    (hz : (z == 0) = true) : (w - z * f == 0) = true := by
  have hf : f.isFinite = true := by
    by_contra hf
    have hdifference := isFinite_sub (isFinite_mul (Bool.eq_false_iff.mpr hf) p) t
    rw [isFinite_of_beq_zero h] at hdifference
    cases hdifference
  rw [sub_zero_iff (zero_mul_of_isFinite hz hf)]
  exact hw

/-- **Subtracting a multiple of zero makes no zeros.** -/
theorem sub_mul_ne_zero {x z : Float} (hx : (x == 0) = false) (hz : (z == 0) = true) (f : Float) :
    (x - z * f == 0) = false := by
  cases hf : f.isFinite with
  | true =>
      rw [sub_zero_iff (zero_mul_of_isFinite hz hf)]
      exact hx
  | false =>
      refine Bool.eq_false_iff.mpr fun hdifference => ?_
      have hfinite := isFinite_sub (isFinite_mul hf z) x
      rw [isFinite_of_beq_zero hdifference] at hfinite
      cases hfinite

/-! ### Zeros and the tolerance -/

/-- A double that equals zero has the magnitude zero. -/
theorem abs_of_beq_zero {x : Float} (h : (x == 0) = true) : x.abs = 0 := by
  obtain ⟨s, hs⟩ := beq_zero_iff.mp h
  have habs : x.abs = .ofModel (pack x.toModel.unpack.abs) := rfl
  have hpositive : (UnpackedFloat.zero s).abs = .zero .positive := rfl
  rw [habs, hs, hpositive]
  rfl

/-- **Without a tolerance only zero counts as zero.** -/
theorem negligible_zero (x : Float) : Numeric.negligible 0 x = (x == 0) := by
  cases hzero : x == 0 with
  | true =>
      show decide (x.abs ≤ 0) = true
      rw [abs_of_beq_zero hzero]
      rfl
  | false =>
      refine decide_eq_false fun hle => ?_
      have hle' : (pack x.toModel.unpack.abs).unpack.le (.zero .positive) = true := of_decide_eq_true hle
      cases hx : x.toModel.unpack with
      | notANumber =>
          rw [hx] at hle'
          cases hle'
      | infinity s =>
          have hpositive : (UnpackedFloat.infinity s).abs = .infinity .positive := rfl
          rw [hx, hpositive, unpack_pack_infinity] at hle'
          cases hle'
      | zero s =>
          rw [beq_zero_iff.mpr ⟨s, hx⟩] at hzero
          cases hzero
      | finite s m e hm =>
          have hpositive : (UnpackedFloat.finite s m e hm).abs = .finite .positive m e hm := rfl
          rw [hx, hpositive, unpack_pack_finite hx] at hle'
          cases hle'

end Decimal

end MatrixCalc
