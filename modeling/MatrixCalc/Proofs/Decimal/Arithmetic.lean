/-
**Products and quotients of doubles are rounded to nearest.**

A finite double is put together from its mantissa and exponent, and taken apart into them again.  The product of two
mantissas is exact before it is rounded.  A quotient is found to as many places as a double has, with two bits for
what is left.  Both are then rounded as the exact number would be.

Main results:

* `MatrixCalc.Decimal.unpack_pack_of_isCanonical`, `MatrixCalc.Decimal.ofModel_pack_of_form` — a finite double is put
  together from its mantissa and exponent;
* `MatrixCalc.Decimal.pack_mul`, `MatrixCalc.Decimal.pack_div` — **products and quotients are rounded to nearest**;
* `MatrixCalc.Decimal.roundWithAccuracy_self` — the mantissa of a double is not rounded.
-/

import MatrixCalc.Proofs.Decimal.Rounding
import MatrixCalc.Proofs.Decimal.Written
import MatrixCalc.Proofs.Decimal.Zeros

set_option autoImplicit false

namespace MatrixCalc

namespace Decimal

open Float.Model UnpackedFloat

variable {m : Nat} {q : Int}

/-! ### Mantissas and exponents of doubles -/

theorem isCanonical_of_form {x : Float} {s : Bool} (hx : form x = .finite s m q) : IsCanonical m q := by
  have h := isCanonical_form x
  rwa [hx] at h

/-- With a mantissa that is not full, the exponent is not written. -/
theorem pack_of_lt (s : Sign) (h : IsCanonical m q) (hm : 0 < m) (hlt : m < 2 ^ 52) :
    UnpackedFloat.pack Format.binary64 (.finite s m q hm) =
      packComponents Format.binary64 s 0#_ (BitVec.ofNat _ m) := by
  have hgreatest := h.greatest
  have hlog : m.log2 < 52 := (Nat.log2_lt hm.ne').2 hlt
  have hbias : (Format.binary64.exponentBias : Int) = 1023 := rfl
  have hbits : Format.binary64.mantissaBits = 53 := rfl
  have hpow : 2 ^ Format.binary64.exponentBits = 2048 := rfl
  simp only [UnpackedFloat.pack, hbits]
  rw [if_neg (by rw [hbias, hpow]; omega), if_neg (by omega)]

/-- With a full mantissa, its first digit is not written. -/
theorem pack_of_le (s : Sign) (h : IsCanonical m q) (hm : 0 < m) (hle : 2 ^ 52 ≤ m) :
    UnpackedFloat.pack Format.binary64 (.finite s m q hm) =
      packComponents Format.binary64 s (BitVec.ofNat _ (q + 1075).toNat) (BitVec.ofNat _ m) := by
  have hgreatest := h.greatest
  have hlog : m.log2 = 52 := (Nat.log2_eq_iff hm.ne').2 ⟨hle, h.mantissa_lt⟩
  have hbias : (Format.binary64.exponentBias : Int) = 1023 := rfl
  have hbits : Format.binary64.mantissaBits = 53 := rfl
  have hpow : 2 ^ Format.binary64.exponentBits = 2048 := rfl
  have hexponent : (q + 1023 + (52 : Nat)).toNat = (q + 1075).toNat := by
    omega
  simp only [UnpackedFloat.pack, hbits]
  rw [hbias, hpow, hexponent, if_neg (by omega), if_pos (by omega)]

/-- **A finite double is put together from its mantissa and exponent, and taken apart again.** -/
theorem unpack_pack_of_isCanonical (s : Sign) (h : IsCanonical m q) (hm : 0 < m) :
    (pack (.finite s m q hm)).unpack = .finite s m q hm := by
  have hleast := h.least
  have hgreatest := h.greatest
  have hlt := h.mantissa_lt
  have hpack : (pack (.finite s m q hm)).unpack =
      UnpackedFloat.unpack Format.binary64 (UnpackedFloat.pack Format.binary64 (.finite s m q hm)) := rfl
  rw [hpack]
  rcases Nat.lt_or_ge m (2 ^ 52) with hm' | hm'
  · have hq : q = -1074 := by
      by_contra hne
      exact absurd (h.full (by omega)) (by omega)
    subst hq
    have hdigits : (BitVec.ofNat 52 m).toNat = m := by
      rw [BitVec.toNat_ofNat]
      omega
    have hne : ¬ BitVec.ofNat 52 m = 0#52 := fun hzero => by
      rw [hzero] at hdigits
      exact absurd hdigits hm.ne
    rw [pack_of_lt s h hm hm']
    unfold UnpackedFloat.unpack
    simp only [unpackMantissa_packComponents, unpackExponent_packComponents, ofBitVec_unpackSign_packComponents]
    rw [if_neg (by decide), if_pos trivial, dif_neg hne]
    simp only [hdigits]
    rfl
  · have hexponent : (BitVec.ofNat 11 (q + 1075).toNat).toNat = (q + 1075).toNat := by
      rw [BitVec.toNat_ofNat]
      omega
    have hdigits : (1#1 ++ BitVec.ofNat 52 m).toNat = m := by
      rw [toNat_one_append, BitVec.toNat_ofNat]
      omega
    have hmax : ¬ BitVec.ofNat 11 (q + 1075).toNat = -1#11 := fun he => by
      rw [he] at hexponent
      have hvalue : (-1#11).toNat = 2047 := rfl
      omega
    have hmin : ¬ BitVec.ofNat 11 (q + 1075).toNat = 0#11 := fun he => by
      rw [he] at hexponent
      have hvalue : (0#11).toNat = 0 := rfl
      omega
    have hbias : (Format.binary64.exponentBias : Int) = 1023 := rfl
    rw [pack_of_le s h hm hm']
    unfold UnpackedFloat.unpack
    simp only [unpackMantissa_packComponents, unpackExponent_packComponents, ofBitVec_unpackSign_packComponents]
    rw [if_neg hmax, if_neg hmin]
    simp only [hdigits, hexponent, hbias]
    congr 1
    omega

/-- The bits of what is put together without a sign. -/
theorem toNat_packComponents (e : BitVec 11) (d : BitVec 52) :
    (packComponents Format.binary64 .positive e d).toNat = e.toNat * 2 ^ 52 + d.toNat := by
  show (0#1 ++ e ++ d).toNat = _
  rw [BitVec.toNat_append, ← Nat.shiftLeft_add_eq_or_of_lt d.isLt, Nat.shiftLeft_eq, BitVec.toNat_append]
  simp

/-- **A finite double is put together from its form.** -/
theorem ofModel_pack_of_form {x : Float} (hx : form x = .finite false m q) (hm : 0 < m) :
    Float.ofModel (pack (.finite .positive m q hm)) = x := by
  have h := isCanonical_of_form hx
  have hleast := h.least
  have hgreatest := h.greatest
  have hlt := h.mantissa_lt
  have hbits : (UnpackedFloat.pack Format.binary64 (.finite .positive m q hm)).toNat =
      (Form.finite false m q).bits := by
    rcases Nat.lt_or_ge m (2 ^ 52) with hm' | hm'
    · have hdigits : (BitVec.ofNat Format.binary64.mantissaBitsWithoutImplicit m).toNat = m := Nat.mod_eq_of_lt hm'
      rw [pack_of_lt .positive h hm hm', toNat_packComponents, Form.bits, if_pos hm', hdigits, BitVec.toNat_zero]
      simp only [Bool.toNat_false, Nat.zero_mul]
    · have hdigits : (BitVec.ofNat 52 m).toNat = m - 2 ^ 52 := by
        rw [BitVec.toNat_ofNat]
        omega
      have hexponent : (BitVec.ofNat 11 (q + 1075).toNat).toNat = (q + 1075).toNat := by
        rw [BitVec.toNat_ofNat]
        omega
      rw [pack_of_le .positive h hm hm', toNat_packComponents, Form.bits, if_neg (by omega)]
      simp only [hdigits, hexponent, Bool.toNat_false, Nat.zero_mul, Nat.zero_add]
  rw [← Float.toBits_inj, ← UInt64.toNat_inj, ← bits_form (x := x) (by rw [hx]; exact Form.noConfusion), hx]
  exact hbits

/-- A finite double is taken apart as its form says. -/
theorem unpack_of_form {x : Float} (hx : form x = .finite false m q) (hm : 0 < m) :
    x.toModel.unpack = .finite .positive m q hm := by
  have h := isCanonical_of_form hx
  rw [← ofModel_pack_of_form hx hm]
  exact unpack_pack_of_isCanonical .positive h hm

/-! ### Products and quotients -/

section

variable {z : Float}

/-- What is rounded to nearest is the double that the number rounds to. -/
theorem ofModel_pack_roundWithAccuracy (hz : form z = .finite false m q) (hm : 0 < m) {m' : Nat} {e : Int}
    {a : Accuracy} {x : ℚ} (h : Holds (.ofMantissaAndAccuracy m' a) x) (he : e ≤ target m' e)
    (hv : RoundsTo m q (x * 2 ^ e)) :
    Float.ofModel (pack (roundWithAccuracy Format.binary64 .positive m' e a)) = z := by
  have hcanonical := isCanonical_of_form hz
  obtain ⟨m'', q', hrounded, hv', hround⟩ := exists_roundWithAccuracy h he .positive
  obtain ⟨rfl, rfl⟩ := RoundsTo.unique hcanonical.isRounded hrounded hv hv'
  rw [hround hm, ofModel_pack_of_form hz]

/-- A mantissa that is full has digits enough. -/
theorem le_target {m : Nat} {e : Int} (h : -1074 < e → 2 ^ 52 ≤ m) : e ≤ target m e := by
  unfold target
  rcases Int.lt_or_le (-1074) e with he | he
  · have hlog : 52 ≤ m.log2 := (Nat.le_log2 (by have := h he; omega)).2 (h he)
    omega
  · exact le_max_of_le_right he

/-- **A product is rounded to nearest.** -/
theorem pack_mul (hz : form z = .finite false m q) (hm : 0 < m) {m₁ m₂ : Nat} {e₁ e₂ : Int} (h₁ : 0 < m₁) (h₂ : 0 < m₂)
    (hfull : 2 ^ 52 ≤ m₁ * m₂) (hv : RoundsTo m q (m₁ * 2 ^ e₁ * (m₂ * 2 ^ e₂))) :
    Float.ofModel (pack (mul Format.binary64 (.finite .positive m₁ e₁ h₁) (.finite .positive m₂ e₂ h₂))) = z := by
  refine ofModel_pack_roundWithAccuracy hz hm (holds_exact (m₁ * m₂)) (le_target fun _ => hfull) ?_
  convert hv using 1
  rw [zpow_add₀ two_ne_zero]
  push_cast
  ring

/-- The digits of a quotient: it is exact to as many places as a double has. -/
theorem divCore_spec {m₁ m₂ : Nat} (e₁ e₂ : Int) (h₁ : 0 < m₁) (h₂ : 0 < m₂) :
    let r := divCore Format.binary64 m₁ e₁ m₂ e₂
    (-1074 < r.2.1 → 2 ^ 52 ≤ r.1) ∧
      ∃ x : ℚ, Holds (.ofMantissaAndAccuracy r.1 r.2.2) x ∧ x * 2 ^ r.2.1 = m₁ * 2 ^ e₁ / (m₂ * 2 ^ e₂) := by
  have htarget (d : Int) : Format.binary64.targetExponent d = max (d - 53) (-1074) := rfl
  simp only [divCore, htarget, totalExponent]
  generalize he : min (e₁ - e₂) (max ((m₁.log2 : Int) + 1 + e₁ - (m₂.log2 + 1 + e₂) - 53) (-1074)) = e
  obtain ⟨k, hk⟩ : ∃ k : Nat, e + k = e₁ - e₂ := Int.le.dest (by omega)
  have hk' : (e₁ - e₂ - e).toNat = k := by omega
  rw [hk', Nat.shiftLeft_eq]
  constructor
  · intro hgreater
    have hexponent : m₂.log2 + 53 ≤ m₁.log2 + k := by omega
    rw [Nat.le_div_iff_mul_le h₂]
    calc 2 ^ 52 * m₂ ≤ 2 ^ 52 * 2 ^ (m₂.log2 + 1) := Nat.mul_le_mul_left _ Nat.lt_log2_self.le
      _ = 2 ^ (m₂.log2 + 53) := by rw [← Nat.pow_add]; congr 1; omega
      _ ≤ 2 ^ (m₁.log2 + k) := Nat.pow_le_pow_right two_pos hexponent
      _ = 2 ^ m₁.log2 * 2 ^ k := Nat.pow_add ..
      _ ≤ m₁ * 2 ^ k := Nat.mul_le_mul_right _ (Nat.log2_self_le h₁.ne')
  · refine ⟨_, holds_ofFraction _ (Nat.mod_lt _ h₂), ?_⟩
    have hm₂ : (m₂ : ℚ) ≠ 0 := by exact_mod_cast h₂.ne'
    have hdivides : ((m₁ * 2 ^ k / m₂ : Nat) : ℚ) + ((m₁ * 2 ^ k % m₂ : Nat) : ℚ) / m₂ = m₁ * 2 ^ k / m₂ := by
      have hsplit : ((m₂ * (m₁ * 2 ^ k / m₂) + m₁ * 2 ^ k % m₂ : Nat) : ℚ) = ((m₁ * 2 ^ k : Nat) : ℚ) := by
        rw [Nat.div_add_mod]
      rw [Nat.cast_add, Nat.cast_mul, Nat.cast_mul, Nat.cast_pow, Nat.cast_ofNat] at hsplit
      rw [← hsplit]
      field_simp
    have hpow : (2 : ℚ) ^ e₁ = 2 ^ k * 2 ^ e * 2 ^ e₂ := by
      rw [← zpow_natCast, ← zpow_add₀ two_ne_zero, ← zpow_add₀ two_ne_zero]
      congr 1
      omega
    rw [hdivides, hpow]
    field_simp

/-- **A quotient is rounded to nearest.** -/
theorem pack_div (hz : form z = .finite false m q) (hm : 0 < m) {m₁ m₂ : Nat} {e₁ e₂ : Int} (h₁ : 0 < m₁) (h₂ : 0 < m₂)
    (hv : RoundsTo m q (m₁ * 2 ^ e₁ / (m₂ * 2 ^ e₂))) :
    Float.ofModel (pack (div Format.binary64 (.finite .positive m₁ e₁ h₁) (.finite .positive m₂ e₂ h₂))) = z := by
  obtain ⟨hfull, x, hx, hvalue⟩ := divCore_spec e₁ e₂ h₁ h₂
  exact ofModel_pack_roundWithAccuracy hz hm hx (le_target hfull) (hvalue ▸ hv)

end

/-! ### Exact doubles -/

/-- A double rounds to itself. -/
theorem roundsTo_self (m : Nat) (q : Int) : RoundsTo m q (m * 2 ^ q) :=
  roundsTo_of_nearest (Nat.cast_nonneg m)
    ⟨by linarith, by linarith, fun _ => ⟨by linarith, by linarith⟩⟩ fun _ => le_rfl

/-- A mantissa of a double is not rounded. -/
theorem roundWithAccuracy_self (s : Sign) (h : IsRounded m q) (hm : 0 < m) :
    roundWithAccuracy Format.binary64 s m q .exact = .finite s m q hm := by
  obtain ⟨m', q', hrounded, hv, hround⟩ := exists_roundWithAccuracy (holds_exact m) (le_target h.full) s
  obtain ⟨rfl, rfl⟩ := RoundsTo.unique h hrounded (roundsTo_self m q) hv
  exact hround hm

end Decimal

end MatrixCalc
