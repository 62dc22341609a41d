/-
**A written number can be read.**

Wherever the point is placed among the digits of a number, and whether or not an exponent is written, the text
is a numeral that stands for the number.  So numbers that are written alike are equal.

Main definitions:

* `MatrixCalc.Decimal.Numeral.value` — the number that a numeral stands for;
* `MatrixCalc.Decimal.ReadsAs` — a text is a numeral that stands for a number.

Main results:

* `MatrixCalc.Decimal.digitsValue_padded` — the digits of a number have its value, zeros in front count for nothing;
* `MatrixCalc.Decimal.readScale?_exponentText` — an exponent is read as it was;
* `MatrixCalc.Decimal.readsAs_layout` — **a number that is written out can be read**.
-/

import Mathlib
import MatrixCalc.Decimal.Notation
import MatrixCalc.Decimal.Numeral

set_option autoImplicit false

namespace MatrixCalc

/-! ### Digits -/

namespace Text

/-- A digit of ASCII has its distance from zero as its value. -/
theorem digitValue?_of_isDigit {c : Char} (h : c.isDigit = true) : digitValue? c = some (c.toNat - 48) := by
  have hrange : 48 ≤ c.toNat ∧ c.toNat ≤ 57 := by
    simpa [Char.isDigit, UInt32.le_iff_toNat_le] using h
  simp only [digitValue?, zeroDigits, digitAbove]
  rw [if_neg (by omega), if_pos (by omega)]

theorem isDigit_of_isDigit {c : Char} (h : c.isDigit = true) : isDigit c = true := by
  rw [isDigit, digitValue?_of_isDigit h]
  rfl

theorem digitsValue_eq_ofDigitChars {cs : List Char} (h : ∀ c ∈ cs, c.isDigit = true) :
    digitsValue cs = Nat.ofDigitChars 10 cs 0 := by
  rw [digitsValue, Nat.ofDigitChars]
  refine List.foldl_ext _ _ _ fun n c hc => ?_
  rw [digitValue?_of_isDigit (h c hc)]
  rfl

end Text

namespace Decimal

open Text

/-- The digits of a number, with zeros in front and behind. -/
def padded (before c behind : Nat) : List Char := zeros before ++ Nat.toDigits 10 c ++ zeros behind

theorem isDigit_of_mem_zeros {n : Nat} {c : Char} (h : c ∈ zeros n) : c.isDigit = true := by
  rw [List.eq_of_mem_replicate h]
  rfl

theorem isDigit_of_mem_padded {before c behind : Nat} {d : Char} (h : d ∈ padded before c behind) :
    d.isDigit = true := by
  rw [padded, List.mem_append, List.mem_append] at h
  rcases h with (h | h) | h
  · exact isDigit_of_mem_zeros h
  · exact Nat.isDigit_of_mem_toDigits (by decide) (by decide) h
  · exact isDigit_of_mem_zeros h

/-- Zeros in front count for nothing, and those behind for powers of ten. -/
theorem digitsValue_padded (before c behind : Nat) : digitsValue (padded before c behind) = c * 10 ^ behind := by
  rw [digitsValue_eq_ofDigitChars fun d hd => isDigit_of_mem_padded hd, padded, zeros, zeros,
    Nat.ofDigitChars_append, Nat.ofDigitChars_append, Nat.ofDigitChars_replicate_zero,
    Nat.ofDigitChars_replicate_zero, Nat.mul_zero, Nat.ofDigitChars_ten_toDigits, Nat.mul_comm]

/-- The zeros with which an exponent is filled up, and its digits. -/
theorem zeros_append_toDigits (n c : Nat) : zeros n ++ Nat.toDigits 10 c = padded n c 0 :=
  (List.append_nil _).symm

/-! ### Numerals -/

/-- The number that a numeral stands for. -/
def Numeral.value (n : Numeral) : ℚ := n.digits * 10 ^ n.exponent

/-- The value of a numeral whose digits are those of a number, with zeros in front and behind. -/
theorem Numeral.value_ofParts {whole fraction : List Char} {before c behind : Nat} {e p : Int}
    (hdigits : whole ++ fraction = padded before c behind) (hp : e - fraction.length + behind = p) :
    (ofParts whole fraction e).value = c * 10 ^ p := by
  have hten : (10 : ℚ) ≠ 0 := by norm_num
  simp only [value, ofParts, hdigits, digitsValue_padded, Nat.cast_mul, Nat.cast_pow, Nat.cast_ofNat]
  rw [mul_assoc, ← zpow_natCast, ← zpow_add₀ hten, ← hp]
  congr 2
  omega

/-- Digits are read up to what is no digit. -/
theorem spanDigits_append {ds rest : List Char} (hds : ∀ d ∈ ds, isDigit d = true)
    (hrest : ∀ c ∈ rest.head?, isDigit c = false) : spanDigits (ds ++ rest) = (ds, rest) := by
  have hend : rest.takeWhile isDigit = [] ∧ rest.dropWhile isDigit = rest := by
    cases rest with
    | nil => exact ⟨rfl, rfl⟩
    | cons c rest => simp [hrest c rfl]
  rw [spanDigits, List.takeWhile_append_of_pos hds, List.dropWhile_append_of_pos hds, hend.1, hend.2,
    List.append_nil]

/-- **An exponent is read as it was.** -/
theorem readScale?_exponentText (e : Int) : readScale? (exponentText e) = some e := by
  rw [exponentText, readScale?, if_pos (.inl rfl), zeros_append_toDigits]
  generalize hds : padded (2 - (Nat.toDigits 10 e.natAbs).length) e.natAbs 0 = ds
  have hvalue : digitsValue ds = e.natAbs := by rw [← hds, digitsValue_padded, Nat.pow_zero, Nat.mul_one]
  have hall : ds.all isDigit = true :=
    List.all_eq_true.2 fun d hd => isDigit_of_isDigit (isDigit_of_mem_padded (hds ▸ hd))
  have hne : ds.isEmpty = false := by
    rw [← hds]
    simp [padded, Nat.toDigits_ne_nil]
  by_cases he : e < 0
  · rw [if_pos he]
    simp only [readExponent?, hne, hall, hvalue, signed]
    simp only [Bool.not_true, Bool.or_false, Bool.false_eq_true, if_false, if_true, Option.some.injEq]
    omega
  · rw [if_neg he]
    simp only [readExponent?, hne, hall, hvalue, signed]
    simp only [Bool.not_true, Bool.or_false, Bool.false_eq_true, if_false, Option.some.injEq,
      Char.reduceEq]
    omega

section Read

variable {whole fraction scale : List Char} {e : Int}

/-- What is read behind the digits of a numeral starts with no digit and no point. -/
theorem head_of_readScale? (h : readScale? scale = some e) : ∀ c ∈ scale.head?, isDigit c = false ∧ c ≠ '.' := by
  intro c hc
  obtain ⟨cs, rfl⟩ := List.head?_eq_some_iff.1 hc
  rw [readScale?] at h
  split at h
  · next hexponent =>
      rcases hexponent with rfl | rfl <;>
      · exact ⟨rfl, by decide⟩
  · cases h

theorem readNumeral?_whole (hwhole : ∀ d ∈ whole, isDigit d = true) (hne : whole ≠ [])
    (hscale : readScale? scale = some e) : readNumeral? (whole ++ scale) = some (.ofParts whole [] e) := by
  have hhead := head_of_readScale? hscale
  have hspan := spanDigits_append hwhole fun c hc => (hhead c hc).1
  have hempty : whole.isEmpty = false := by simpa using hne
  simp only [readNumeral?, hspan]
  split
  · exact absurd rfl (hhead '.' rfl).2
  · simp only [hempty, hscale, Bool.false_and, Bool.false_eq_true, if_false, Option.map_some]

theorem readNumeral?_fraction (hwhole : ∀ d ∈ whole, isDigit d = true) (hne : whole ≠ [])
    (hfraction : ∀ d ∈ fraction, isDigit d = true) (hscale : readScale? scale = some e) :
    readNumeral? (whole ++ '.' :: (fraction ++ scale)) = some (.ofParts whole fraction e) := by
  have hpoint : ∀ c ∈ ('.' :: (fraction ++ scale)).head?, isDigit c = false := by
    intro c hc
    obtain rfl : '.' = c := Option.some.inj hc
    rfl
  have hspan := spanDigits_append hwhole hpoint
  have hspan' := spanDigits_append hfraction fun c hc => (head_of_readScale? hscale c hc).1
  have hempty : whole.isEmpty = false := by simpa using hne
  simp only [readNumeral?, hspan, hspan', hempty, hscale, Bool.false_and, Bool.false_eq_true, if_false,
    Option.map_some]

end Read

/-! ### Numbers that are written out -/

/-- A text is a numeral that stands for `v`. -/
def ReadsAs (cs : List Char) (v : ℚ) : Prop := ∃ n, readNumeral? cs = some n ∧ n.value = v

/-- What may be put behind a whole number: nothing, or a point and a zero. -/
def IsPointed (pointed : List Char) : Prop := pointed = [] ∨ pointed = ['.', '0']

section Written

variable {whole fraction scale : List Char} {before c behind : Nat} {e p : Int}

/-- Digits with no point among them are read. -/
theorem ReadsAs.ofWhole (hdigits : whole = padded before c behind) (hne : whole ≠ [])
    (hscale : readScale? scale = some e) (hp : e + behind = p) : ReadsAs (whole ++ scale) (c * 10 ^ p) := by
  have hwhole : ∀ d ∈ whole, isDigit d = true := fun d hd => isDigit_of_isDigit (isDigit_of_mem_padded (hdigits ▸ hd))
  refine ⟨_, readNumeral?_whole hwhole hne hscale, Numeral.value_ofParts ((List.append_nil _).trans hdigits) ?_⟩
  simpa using hp

/-- Digits with a point among them are read. -/
theorem ReadsAs.ofFraction (hdigits : whole ++ fraction = padded before c behind) (hne : whole ≠ [])
    (hscale : readScale? scale = some e) (hp : e - fraction.length + behind = p) :
    ReadsAs (whole ++ '.' :: (fraction ++ scale)) (c * 10 ^ p) := by
  have hall : ∀ d ∈ whole ++ fraction, isDigit d = true := fun d hd =>
    isDigit_of_isDigit (isDigit_of_mem_padded (hdigits ▸ hd))
  have hread := readNumeral?_fraction (fun d hd => hall d (List.mem_append_left _ hd)) hne
    (fun d hd => hall d (List.mem_append_right _ hd)) hscale
  exact ⟨_, hread, Numeral.value_ofParts hdigits hp⟩

variable {pointed : List Char}

theorem readsAs_positional (hpointed : IsPointed pointed) (c : Nat) (p : Int) :
    ReadsAs (positional pointed (Nat.toDigits 10 c) ((Nat.toDigits 10 c).length + p)) (c * 10 ^ p) := by
  have hne : Nat.toDigits 10 c ≠ [] := Nat.toDigits_ne_nil
  generalize hds : Nat.toDigits 10 c = ds at hne
  unfold positional
  split
  · -- all digits are behind the point
    next hpoint =>
      have hdigits : ['0'] ++ (zeros (-(ds.length + p)).toNat ++ ds) =
          padded ((-(ds.length + p)).toNat + 1) c 0 := by
        simp only [padded, zeros, hds, List.replicate_succ, List.replicate_zero, List.append_nil,
          List.cons_append, List.nil_append]
      have hread : ReadsAs (['0'] ++ '.' :: (zeros (-(ds.length + p)).toNat ++ ds ++ [])) (c * 10 ^ p) := by
        refine .ofFraction hdigits (List.cons_ne_nil _ _) rfl ?_
        simp only [List.length_append, zeros, List.length_replicate]
        omega
      rwa [List.append_nil] at hread
  split
  · -- zeros are put behind the digits
    next hpoint hwhole =>
      have hk : (ds.length + p - ds.length).toNat = p.toNat := by congr 1; omega
      rw [hk]
      have hne' : ds ++ zeros p.toNat ≠ [] := by simp [hne]
      rcases hpointed with rfl | rfl
      · have hdigits : ds ++ zeros p.toNat = padded 0 c p.toNat := by simp [padded, zeros, hds]
        exact .ofWhole hdigits hne' rfl (by omega)
      · have hdigits : ds ++ zeros p.toNat ++ ['0'] = padded 0 c (p.toNat + 1) := by
          simp [padded, zeros, hds, List.replicate_succ']
        exact .ofFraction hdigits hne' rfl (by simp only [List.length_singleton]; omega)
  · -- the point is among the digits
    next hpoint hwhole =>
      have hdigits : ds.take (ds.length + p).toNat ++ ds.drop (ds.length + p).toNat = padded 0 c 0 := by
        simp [padded, zeros, hds]
      have hne' : ds.take (ds.length + p).toNat ≠ [] := by
        simp only [ne_eq, List.take_eq_nil_iff, hne, or_false]
        omega
      have hread : ReadsAs (ds.take (ds.length + p).toNat ++ '.' :: (ds.drop (ds.length + p).toNat ++ []))
          (c * 10 ^ p) := by
        refine .ofFraction hdigits hne' rfl ?_
        simp only [List.length_drop]
        omega
      rwa [List.append_nil] at hread

theorem readsAs_scientific (c : Nat) (p : Int) :
    ReadsAs (scientific (Nat.toDigits 10 c) ((Nat.toDigits 10 c).length + p - 1)) (c * 10 ^ p) := by
  have hne : Nat.toDigits 10 c ≠ [] := Nat.toDigits_ne_nil
  generalize hds : Nat.toDigits 10 c = ds at hne
  have hdigits : ds = padded 0 c 0 := by simp [padded, zeros, hds]
  unfold scientific
  split
  · exact absurd rfl hne
  · next d =>
      exact .ofWhole hdigits hne (readScale?_exponentText _) (by simp)
  · next d ds' _ =>
      refine .ofFraction (show [d] ++ ds' = _ from hdigits) (List.cons_ne_nil _ _) (readScale?_exponentText _) ?_
      simp only [List.length_cons]
      omega

/-- **A number that is written out can be read**, and stands for the same. -/
theorem readsAs_layout (hpointed : IsPointed pointed) (c : Nat) (p : Int) :
    ReadsAs (layout pointed c p) (c * 10 ^ p) := by
  simp only [layout]
  split
  · exact readsAs_positional hpointed c p
  · exact readsAs_scientific c p

end Written

end Decimal

end MatrixCalc
