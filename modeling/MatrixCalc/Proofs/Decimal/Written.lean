/-
**Doubles that are written alike are equal.**

A double is told by its form, and the form by the text in which a data dump writes the double: by its sign, and
then by a word for what is no finite number, or by the shortest decimal.  That is read as a number which rounds
to no other double.

Main definitions:

* `MatrixCalc.Decimal.Form.bits` — the bits of a form;
* `MatrixCalc.Decimal.Form.negative`, `MatrixCalc.Decimal.Form.magnitude` — the sign of a form, and its text
  without the sign;
* `MatrixCalc.Decimal.Form.IsCanonical` — the forms of doubles.

Main results:

* `MatrixCalc.Decimal.form_injective` — a double is told by its form;
* `MatrixCalc.Decimal.Form.eq_of_text` — a form is told by its text;
* `MatrixCalc.Decimal.write_injective` — **doubles that are written alike are equal**.
-/

import MatrixCalc.Proofs.Decimal.Reading
import MatrixCalc.Proofs.Decimal.ReadsBack

set_option autoImplicit false

namespace MatrixCalc

namespace Decimal

open Float.Model UnpackedFloat

/-! ### Forms of doubles -/

/-- The forms of doubles: finite ones have the mantissa and the exponent of a double. -/
def Form.IsCanonical : Form → Prop
  | finite _ m q => Decimal.IsCanonical m q
  | _ => True

theorem isCanonical_form (x : Float) : (form x).IsCanonical := by
  have hpow : Nat.pow 2 52 = 2 ^ 52 ∧ Nat.pow 2 11 = 2048 := ⟨rfl, rfl⟩
  simp only [form, hpow]
  split
  · split <;> trivial
  split
  · exact ⟨by omega, by omega, by omega, fun h => absurd h (by decide)⟩
  · exact ⟨by omega, by omega, by omega, fun _ => by omega⟩

/-- The bits of a number: its sign, its exponent and its fraction, which is the mantissa without its full bit. -/
def Form.bits : Form → Nat
  | nan => 0
  | infinite negative => negative.toNat * 2 ^ 63 + 2047 * 2 ^ 52
  | finite negative m q =>
      negative.toNat * 2 ^ 63 + if m < 2 ^ 52 then m else (q + 1075).toNat * 2 ^ 52 + (m - 2 ^ 52)

/-- A double that is a number has the bits of its form. -/
theorem bits_form {x : Float} (h : form x ≠ .nan) : (form x).bits = x.toBits.toNat := by
  have hbits : x.toBits.toNat < 2 ^ 64 := x.toBits.toNat_lt
  have hpow : Nat.pow 2 52 = 2 ^ 52 ∧ Nat.pow 2 11 = 2048 ∧ Nat.pow 2 63 = 2 ^ 63 := ⟨rfl, rfl, rfl⟩
  simp only [form, hpow] at h ⊢
  generalize x.toBits.toNat = n at *
  have hsign : (decide (2 ^ 63 ≤ n)).toNat = n / 2 ^ 63 := by
    by_cases hn : 2 ^ 63 ≤ n <;> simp only [hn, decide_true, decide_false, Bool.toNat_true, Bool.toNat_false] <;>
      omega
  split
  · next hexponent =>
      rw [if_pos hexponent] at h
      split
      · simp only [Form.bits, hsign]
        omega
      · next hfraction => exact absurd (if_neg hfraction) h
  split
  · have hlt : n % 2 ^ 52 < 2 ^ 52 := Nat.mod_lt _ (by decide)
    simp only [Form.bits, hsign, if_pos hlt]
    omega
  · have hle : ¬ 2 ^ 52 + n % 2 ^ 52 < 2 ^ 52 := by omega
    simp only [Form.bits, hsign, if_neg hle]
    omega

/-- There is only one double that is no number. -/
theorem toBits_of_form_nan {x : Float} (h : form x = .nan) : x.toBits.toBitVec = packedNaN Format.binary64 := by
  have hpow : Nat.pow 2 52 = 2 ^ 52 ∧ Nat.pow 2 11 = 2 ^ 11 := ⟨rfl, rfl⟩
  simp only [form, hpow] at h
  split at h
  · next hexponent =>
      split at h
      · cases h
      · next hfraction =>
          refine x.toModel.valid.eq_packedNaN (BitVec.eq_of_toNat_eq ?_) fun hmantissa => hfraction ?_
          · simpa [unpackExponent, Nat.shiftRight_eq_div_pow, Float.toBits] using hexponent
          · simpa [unpackMantissa, Float.toBits] using congrArg BitVec.toNat hmantissa
  · split at h <;> cases h

/-- **A double is told by its form.** -/
theorem form_injective : Function.Injective form := by
  intro x y h
  rw [← Float.toBits_inj]
  by_cases hnan : form x = .nan
  · rw [← UInt64.toBitVec_inj, toBits_of_form_nan hnan, toBits_of_form_nan (h ▸ hnan)]
  · rw [← UInt64.toNat_inj, ← bits_form hnan, h, bits_form (h ▸ hnan)]

/-! ### Texts of forms -/

namespace Form

/-- Whether there is a minus sign. -/
def negative : Form → Bool
  | nan => false
  | infinite negative => negative
  | finite negative _ _ => negative

/-- The text of a form in data dumps, without its sign. -/
def magnitude : Form → List Char
  | nan => roundTrip.nan.toList
  | infinite _ => infinityText.toList
  | finite _ 0 _ => ['0', '.', '0']
  | finite _ m q => layout ['.', '0'] (shortest m q).1 (shortest m q).2

end Form

theorem chars_roundTrip (x : Float) :
    roundTrip.chars x = signText (form x).negative ++ (form x).magnitude := by
  unfold Notation.chars
  cases form x with
  | nan => rfl
  | infinite n => rfl
  | finite n m q =>
      cases m with
      | zero => cases n <;> rfl
      | succ m => rfl

/-- What is read off a text is determined by it. -/
theorem ReadsAs.unique {cs : List Char} {v v' : ℚ} (h : ReadsAs cs v) (h' : ReadsAs cs v') : v = v' := by
  obtain ⟨n, hn, rfl⟩ := h
  obtain ⟨n', hn', rfl⟩ := h'
  rw [Option.some.inj (hn.symm.trans hn')]

theorem not_readsAs {cs : List Char} (h : readNumeral? cs = none) (v : ℚ) : ¬ ReadsAs cs v := by
  rintro ⟨n, hn, -⟩
  rw [h] at hn
  cases hn

/-- A numeral has no sign. -/
theorem readNumeral?_minus (cs : List Char) : readNumeral? ('-' :: cs) = none := rfl

namespace Form

/-- The text of a finite form is read as a number that rounds to it. -/
theorem readsAs_magnitude {m : Nat} {q : Int} (h : Decimal.IsCanonical m q) (negative : Bool) :
    ∃ v, ReadsAs (finite negative m q).magnitude v ∧ RoundsTo m q v := by
  cases m with
  | zero =>
      refine ⟨0, ⟨⟨0, -1⟩, rfl, by simp [Numeral.value]⟩, ?_⟩
      have hstep : (0 : ℚ) ≤ 2 ^ (q - 2) := zpow_nonneg two_pos.le _
      simp [RoundsTo, lowest, highest, hstep]
  | succ m =>
      exact ⟨_, readsAs_layout (.inr rfl) _ _, shortest_roundsTo (Nat.succ_ne_zero m) h⟩

/-- What is no finite number is written as a word. -/
theorem readNumeral?_word (n : Bool) :
    readNumeral? nan.magnitude = none ∧ readNumeral? (infinite n).magnitude = none ∧
      nan.magnitude ≠ (infinite n).magnitude := by
  decide +revert

/-- The text without the sign starts with no sign. -/
theorem magnitude_ne_minus {f : Form} (h : f.IsCanonical) (cs : List Char) : f.magnitude ≠ '-' :: cs := by
  intro hcs
  cases f with
  | nan => cases hcs
  | infinite n => cases hcs
  | finite n m q =>
      obtain ⟨v, hv, -⟩ := readsAs_magnitude h n
      rw [hcs] at hv
      exact not_readsAs (readNumeral?_minus cs) v hv

/-- A form is told by its sign and its text without the sign. -/
theorem eq_of_magnitude {f g : Form} (hf : f.IsCanonical) (hg : g.IsCanonical) (hsign : f.negative = g.negative)
    (h : f.magnitude = g.magnitude) : f = g := by
  cases f with
  | nan =>
      cases g with
      | nan => rfl
      | infinite n => exact absurd h (readNumeral?_word n).2.2
      | finite n m q =>
          obtain ⟨v, hv, -⟩ := readsAs_magnitude hg n
          exact absurd (h ▸ hv) (not_readsAs (readNumeral?_word n).1 v)
  | infinite n =>
      cases g with
      | nan => exact absurd h.symm (readNumeral?_word n).2.2
      | infinite n' => exact congrArg infinite hsign
      | finite n' m q =>
          obtain ⟨v, hv, -⟩ := readsAs_magnitude hg n'
          exact absurd (h ▸ hv) (not_readsAs (readNumeral?_word n).2.1 v)
  | finite n m q =>
      obtain ⟨v, hv, hrounds⟩ := readsAs_magnitude hf n
      cases g with
      | nan => exact absurd (h ▸ hv) (not_readsAs (readNumeral?_word n).1 v)
      | infinite n' => exact absurd (h ▸ hv) (not_readsAs (readNumeral?_word n').2.1 v)
      | finite n' m' q' =>
          obtain ⟨v', hv', hrounds'⟩ := readsAs_magnitude hg n'
          obtain rfl := hv.unique (h ▸ hv')
          obtain ⟨rfl, rfl⟩ := RoundsTo.unique hf.isRounded hg.isRounded hrounds hrounds'
          obtain rfl : n = n' := hsign
          rfl

/-- **A form is told by its text.** -/
theorem eq_of_text {f g : Form} (hf : f.IsCanonical) (hg : g.IsCanonical)
    (h : signText f.negative ++ f.magnitude = signText g.negative ++ g.magnitude) : f = g := by
  cases hfn : f.negative <;> cases hgn : g.negative <;> rw [hfn, hgn] at h
  · exact eq_of_magnitude hf hg (hfn.trans hgn.symm) h
  · exact absurd h (magnitude_ne_minus hf _)
  · exact absurd h.symm (magnitude_ne_minus hg _)
  · exact eq_of_magnitude hf hg (hfn.trans hgn.symm) (List.cons.inj h).2

end Form

/-- **Doubles that are written alike in a data dump are equal.** -/
theorem write_injective : Function.Injective roundTrip.write := by
  intro x y h
  have hchars : roundTrip.chars x = roundTrip.chars y := String.ofList_injective h
  rw [chars_roundTrip, chars_roundTrip] at hchars
  exact form_injective (Form.eq_of_text (isCanonical_form x) (isCanonical_form y) hchars)

end Decimal

end MatrixCalc
