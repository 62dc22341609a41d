/-
**Written numbers are tokens.**

The lexer and the reader of numerals agree on texts without underscores and without a capital `E`: such a text is one
number token if it is a numeral.  A number that is written out is one, so a finite double without a sign is written as
a single token, whose number is read as the double.  A text of numbers and marks is cut where they meet.

Main definitions:

* `MatrixCalc.Token.IsPlain` — texts that the lexer and the reader of numerals see alike;
* `MatrixCalc.Decimal.IsUnsigned`, `MatrixCalc.Decimal.numeral` — the finite doubles without a sign, and what they are
  written as;
* `MatrixCalc.Spells`, `MatrixCalc.SpellsBehind` — the kinds of the tokens of a text, wherever it stands.

Main results:

* `MatrixCalc.Token.numberLexeme_of_readNumeral?` — **a numeral is one token**;
* `MatrixCalc.Decimal.IsUnsigned.toFloat_numeral` — **a finite double without a sign is written as a numeral that is
  read as it**;
* `MatrixCalc.SpellsBehind.mark`, `MatrixCalc.SpellsBehind.number` — a mark and a number in front of a text.
-/

import MatrixCalc.Proofs.Decimal.Nearest
import MatrixCalc.Proofs.Token.Seam

set_option autoImplicit false

namespace MatrixCalc

open Text Token Decimal

/-! ### Numerals as tokens -/

namespace Token

/-- A text without the characters that only the lexer or only the reader of numerals knows: underscores between digits,
and a capital `E` before an exponent. -/
def IsPlain (cs : List Char) : Prop := ∀ c ∈ cs, c ≠ '_' ∧ c ≠ 'E'

variable {cs : List Char}

theorem isPlain_nil : IsPlain [] := fun _ hc => absurd hc List.not_mem_nil

theorem isPlain_cons {c : Char} : IsPlain (c :: cs) ↔ (c ≠ '_' ∧ c ≠ 'E') ∧ IsPlain cs := List.forall_mem_cons

theorem isPlain_append {ds : List Char} : IsPlain (cs ++ ds) ↔ IsPlain cs ∧ IsPlain ds := List.forall_mem_append

theorem IsPlain.dropWhile (h : IsPlain cs) (p : Char → Bool) : IsPlain (cs.dropWhile p) :=
  fun c hc => h c ((List.dropWhile_suffix p).subset hc)

theorem IsPlain.tail {c : Char} (h : IsPlain (c :: cs)) : IsPlain cs := fun d hd => h d (List.mem_cons_of_mem c hd)

/-- Without underscores, a run of digits is one of digits and underscores. -/
theorem IsPlain.span (h : IsPlain cs) :
    cs.takeWhile isDigitOrSeparator = cs.takeWhile isDigit ∧
      cs.dropWhile isDigitOrSeparator = cs.dropWhile isDigit := by
  induction cs with
  | nil => exact ⟨rfl, rfl⟩
  | cons c cs ih =>
      have hc : isDigitOrSeparator c = isDigit c := by
        simp [isDigitOrSeparator, (h c List.mem_cons_self).1]
      simp only [List.takeWhile_cons, List.dropWhile_cons, hc, ih h.tail]
      exact ⟨trivial, trivial⟩

theorem filter_takeWhile_isDigit (cs : List Char) : (cs.takeWhile isDigit).filter isDigit = cs.takeWhile isDigit :=
  List.filter_eq_self.2 fun _ hc => List.all_eq_true.1 List.all_takeWhile _ hc

/-- The digits of an exponent are read to the end. -/
theorem spanDigitRun_of_all (hne : cs.isEmpty = false) (hall : cs.all isDigit = true) :
    spanDigitRun cs = (cs, []) := by
  have hdigits : ∀ c ∈ cs, isDigitOrSeparator c = true := fun c hc => by
    rw [isDigitOrSeparator, List.all_eq_true.1 hall c hc, Bool.true_or]
  cases cs with
  | nil => cases hne
  | cons c cs =>
      have hhead : (((c :: cs).head?.map isDigit).getD false) = true := List.all_eq_true.1 hall c List.mem_cons_self
      rw [spanDigitRun, if_pos hhead, List.takeWhile_eq_self_iff.2 hdigits, List.dropWhile_eq_nil_iff.2 hdigits]

/-- The sign of an exponent and its digits, as the lexer and as the reader of numerals see them. -/
theorem readExponent?_eq (cs : List Char) :
    readExponent? cs =
      if (spanSign cs).2.isEmpty || !(spanSign cs).2.all isDigit then none
      else some (signed ((spanSign cs).1.headD '+') (digitsValue (spanSign cs).2)) := by
  cases cs with
  | nil => rfl
  | cons c cs =>
      by_cases hplus : c = '+'
      · subst hplus
        rfl
      by_cases hminus : c = '-'
      · subst hminus
        rfl
      have hsign : spanSign (c :: cs) = ([], c :: cs) := if_neg (not_or.2 ⟨hplus, hminus⟩)
      rw [hsign]
      unfold readExponent?
      split
      next hcs =>
      split at hcs
      · next heq => exact absurd (List.cons.inj heq).1 hplus
      · next heq => exact absurd (List.cons.inj heq).1 hminus
      · obtain ⟨rfl, rfl⟩ := Prod.mk.inj hcs
        rfl

/-- An exponent that is read is one to the lexer. -/
theorem scan_of_readExponent? {e : Int} (hplain : IsPlain cs) (h : readExponent? cs = some e) :
    ∃ t : ExponentText, ExponentText.scan cs = (t, []) ∧ t.digits.isEmpty = false ∧
      signed (t.sign.headD '+') (digitsValue t.digits) = e := by
  have hseparators : cs.takeWhile (· == '_') = [] ∧ cs.dropWhile (· == '_') = cs := by
    cases cs with
    | nil => exact ⟨rfl, rfl⟩
    | cons c cs => simp [(hplain c List.mem_cons_self).1]
  rw [readExponent?_eq] at h
  split at h
  · cases h
  · next hdigits =>
      rw [Bool.not_eq_true, Bool.or_eq_false_iff, Bool.not_eq_false'] at hdigits
      refine ⟨⟨[], (spanSign cs).1, (spanSign cs).2⟩, ?_, hdigits.1, Option.some.inj h⟩
      simp only [ExponentText.scan, hseparators, spanDigitRun_of_all hdigits.1 hdigits.2]

/-- What is read behind the digits of a numeral is an exponent to the lexer, or nothing. -/
theorem scan_of_readScale? {e : Int} (hplain : IsPlain cs) (h : readScale? cs = some e) :
    ∃ t?, NumberText.scanExponent cs = (t?, []) ∧
      ∀ whole fraction, NumberText.isIncomplete ⟨whole, fraction, t?⟩ = false ∧
        NumberText.exponentValue ⟨whole, fraction, t?⟩ = e := by
  cases cs with
  | nil => exact ⟨none, rfl, fun _ _ => ⟨rfl, Option.some.inj h⟩⟩
  | cons c cs =>
      rw [readScale?] at h
      split at h
      · next hc =>
          obtain rfl : c = 'e' := hc.resolve_right (hplain c List.mem_cons_self).2
          obtain ⟨t, hscan, hdigits, hvalue⟩ := scan_of_readExponent? hplain.tail h
          exact ⟨some t, by rw [NumberText.scanExponent, hscan], fun _ _ => ⟨hdigits, hvalue⟩⟩
      · cases h

/-- The parts of a numeral: digits, a point and digits if there is a point, and what scales them. -/
theorem exists_parts_of_readNumeral? {n : Numeral} (h : readNumeral? cs = some n) :
    ∃ fraction rest e, readScale? rest = some e ∧ n = .ofParts (cs.takeWhile isDigit) fraction e ∧
      ((∃ cs', cs.dropWhile isDigit = '.' :: cs' ∧ fraction = cs'.takeWhile isDigit ∧ rest = cs'.dropWhile isDigit) ∨
        (∀ cs', cs.dropWhile isDigit ≠ '.' :: cs') ∧ fraction = [] ∧ rest = cs.dropWhile isDigit) := by
  have hread : ∀ {fraction rest : List Char}, (if (cs.takeWhile isDigit).isEmpty && fraction.isEmpty then none
      else (readScale? rest).map (Numeral.ofParts (cs.takeWhile isDigit) fraction)) = some n →
      ∃ e, readScale? rest = some e ∧ n = .ofParts (cs.takeWhile isDigit) fraction e := by
    intro fraction rest hn
    split at hn
    · cases hn
    · obtain ⟨e, he, rfl⟩ := Option.map_eq_some_iff.1 hn
      exact ⟨e, he, rfl⟩
  unfold readNumeral? spanDigits at h
  split at h
  next hspan =>
  obtain ⟨rfl, rfl⟩ := Prod.mk.inj hspan
  split at h
  next hspan' =>
  split at hspan'
  · next cs' hpoint =>
      obtain ⟨rfl, rfl⟩ := Prod.mk.inj hspan'
      obtain ⟨e, he, hn⟩ := hread h
      exact ⟨_, _, e, he, hn, .inl ⟨cs', hpoint, rfl, rfl⟩⟩
  · next hpoint =>
      obtain ⟨rfl, rfl⟩ := Prod.mk.inj hspan'
      obtain ⟨e, he, hn⟩ := hread h
      exact ⟨_, _, e, he, hn, .inr ⟨hpoint, rfl, rfl⟩⟩

/-- A numeral is scanned to its end. -/
theorem scan_of_readNumeral? {n : Numeral} (hplain : IsPlain cs) (h : readNumeral? cs = some n) :
    ∃ t : NumberText, NumberText.scan cs = (t, []) ∧ t.isIncomplete = false ∧ t.numeral = n := by
  obtain ⟨fraction, rest, e, he, rfl, ⟨cs', hpoint, rfl, rfl⟩ | ⟨hpoint, rfl, rfl⟩⟩ := exists_parts_of_readNumeral? h
  · have hplain' : IsPlain cs' := (hpoint ▸ hplain.dropWhile isDigit).tail
    obtain ⟨t?, hscan, ht⟩ := scan_of_readScale? (hplain'.dropWhile isDigit) he
    obtain ⟨hcomplete, hvalue⟩ := ht (cs.takeWhile isDigit) (some (cs'.takeWhile isDigit))
    refine ⟨_, ?_, hcomplete, ?_⟩
    · simp only [NumberText.scan, hplain.span, hpoint, NumberText.scanFraction, hplain'.span, hscan]
    · rw [NumberText.numeral, hvalue, Option.getD_some, filter_takeWhile_isDigit, filter_takeWhile_isDigit]
  · obtain ⟨t?, hscan, ht⟩ := scan_of_readScale? (hplain.dropWhile isDigit) he
    obtain ⟨hcomplete, hvalue⟩ := ht (cs.takeWhile isDigit) none
    refine ⟨_, ?_, hcomplete, ?_⟩
    · simp only [NumberText.scan, hplain.span, NumberText.scanFraction.eq_2 _ hpoint, hscan]
    · rw [NumberText.numeral, hvalue, Option.getD_none, filter_takeWhile_isDigit, List.filter_nil]

/-- **A numeral is one token**, if no underscore and no capital `E` is in it. -/
theorem numberLexeme_of_readNumeral? {n : Numeral} (hplain : IsPlain cs) (h : readNumeral? cs = some n) :
    numberLexeme cs = .ok ⟨some (.number n), cs, []⟩ := by
  obtain ⟨t, hscan, hcomplete, rfl⟩ := scan_of_readNumeral? hplain h
  have hchars := NumberText.chars_scan_append cs
  rw [hscan, List.append_nil] at hchars
  simp [numberLexeme, hscan, hcomplete, suffixCause?, hchars]

end Token

/-! ### Written numbers -/

namespace Decimal

variable {cs : List Char}

theorem isPlain_of_isDigit (h : ∀ c ∈ cs, c.isDigit = true) : IsPlain cs := by
  refine fun c hc => ⟨?_, ?_⟩ <;>
  · rintro rfl
    exact absurd (h _ hc) (by decide)

theorem isPlain_zeros (n : Nat) : IsPlain (zeros n) := isPlain_of_isDigit fun _ hd => isDigit_of_mem_zeros hd

theorem isPlain_exponentText (e : Int) : IsPlain (exponentText e) := by
  rw [exponentText, zeros_append_toDigits]
  refine isPlain_cons.2 ⟨by decide, isPlain_cons.2 ⟨?_, isPlain_of_isDigit fun d hd => isDigit_of_mem_padded hd⟩⟩
  split <;> decide

/-- A text starts with a digit, and neither an underscore nor a capital `E` is in it. -/
structure StartsPlain (cs : List Char) : Prop where
  plain : IsPlain cs
  digit : ∃ c ∈ cs.head?, isDigit c = true

/-- A written number starts with a digit, and has only digits, a point and a small `e` with its sign. -/
theorem startsPlain_layout (c : Nat) (p : Int) : StartsPlain (layout [] c p) := by
  have hdigits : ∀ d ∈ Nat.toDigits 10 c, d.isDigit = true := fun d hd =>
    Nat.isDigit_of_mem_toDigits (by decide) (by decide) hd
  obtain ⟨d, ds, hds⟩ := List.exists_cons_of_ne_nil (Nat.toDigits_ne_nil (n := c) (b := 10))
  have hd : isDigit d = true := isDigit_of_isDigit (hdigits d (hds ▸ List.mem_cons_self))
  have hplain : IsPlain (d :: ds) := hds ▸ isPlain_of_isDigit hdigits
  simp only [layout, hds]
  split
  · unfold positional
    split
    · -- all digits are behind the point
      exact ⟨by simp [isPlain_cons, isPlain_append, isPlain_zeros, isPlain_cons.1 hplain], '0', rfl, rfl⟩
    split
    · -- there is no point
      exact ⟨isPlain_append.2 ⟨isPlain_append.2 ⟨hplain, isPlain_zeros _⟩, isPlain_nil⟩, d, rfl, hd⟩
    · -- the point is among the digits
      next hpoint hwhole =>
        obtain ⟨k, hk⟩ : ∃ k, ((d :: ds).length + p).toNat = k + 1 := Nat.exists_eq_succ_of_ne_zero (by omega)
        have hparts : IsPlain ((d :: ds).take (k + 1)) ∧ IsPlain ((d :: ds).drop (k + 1)) :=
          isPlain_append.1 ((List.take_append_drop (k + 1) (d :: ds)).symm ▸ hplain)
        rw [hk]
        exact ⟨isPlain_append.2 ⟨hparts.1, isPlain_cons.2 ⟨by decide, hparts.2⟩⟩, d, rfl, hd⟩
  · unfold scientific
    split
    · next hnil => cases hnil
    · next hone =>
        obtain ⟨rfl, rfl⟩ := List.cons.inj hone
        exact ⟨isPlain_cons.2 ⟨(isPlain_cons.1 hplain).1, isPlain_exponentText _⟩, _, rfl, hd⟩
    · next hmore =>
        obtain ⟨rfl, rfl⟩ := List.cons.inj hmore
        refine ⟨?_, _, rfl, hd⟩
        simp [isPlain_cons, isPlain_append, isPlain_exponentText, (isPlain_cons.1 hplain).1, (isPlain_cons.1 hplain).2]

/-! ### Finite doubles without a sign -/

variable {x : Float}

/-- A double is finite, and its sign bit is clear. -/
def IsUnsigned (x : Float) : Prop := x.isFinite = true ∧ x.toBits.toNat < 2 ^ 63

instance : DecidablePred IsUnsigned := fun x =>
  inferInstanceAs (Decidable (x.isFinite = true ∧ x.toBits.toNat < 2 ^ 63))

/-- The numeral as which a double is written, if it is written as one. -/
def numeral (x : Float) : Numeral := (readNumeral? (display.chars x)).getD ⟨0, 0⟩

/-- A double other than zero is written with its shortest decimal. -/
theorem chars_display_of_form {m : Nat} {q : Int} (hx : form x = .finite false m q) (hm : m ≠ 0) :
    display.chars x = layout [] (shortest m q).1 (shortest m q).2 := by
  unfold Notation.chars
  rw [hx]
  cases m with
  | zero => exact absurd rfl hm
  | succ m => rfl

/-- There is only one zero without a sign. -/
theorem eq_zero_of_form {q : Int} (hx : form x = .finite false 0 q) : x = 0 := by
  have h := isCanonical_of_form hx
  have hq : q = -1074 := by
    by_contra hne
    have hleast := h.least
    exact absurd (h.full (by omega)) (by decide)
  refine form_injective ?_
  rw [hx, hq]
  rfl

namespace IsUnsigned

theorem exists_form (h : IsUnsigned x) : ∃ m q, form x = .finite false m q := by
  obtain ⟨hfinite, hsign⟩ := h
  have hnegative : decide (Nat.pow 2 63 ≤ x.toBits.toNat) = false := decide_eq_false (Nat.not_le.2 hsign)
  cases hform : form x with
  | nan =>
      obtain rfl : x = quietNaN := form_injective (hform.trans (by decide +kernel))
      exact absurd hfinite (by decide +kernel)
  | infinite negative =>
      have hinfinite : form x = form infinity ∨ form x = form (-infinity) := by
        rw [hform]
        cases negative
        · exact .inl (by decide +kernel)
        · exact .inr (by decide +kernel)
      rcases hinfinite with h | h <;>
      · obtain rfl := form_injective h
        exact absurd hfinite (by decide +kernel)
  | finite negative m q =>
      refine ⟨m, q, ?_⟩
      simp only [form, hnegative] at hform
      split at hform
      · split at hform <;> cases hform
      · split at hform
        · cases hform
          rfl
        · cases hform
          rfl

/-- What is written is a numeral that is read as the double. -/
theorem exists_numeral (h : IsUnsigned x) :
    StartsPlain (display.chars x) ∧ ∃ n, readNumeral? (display.chars x) = some n ∧ n.toFloat = x := by
  obtain ⟨m, q, hx⟩ := h.exists_form
  rcases Nat.eq_zero_or_pos m with rfl | hm
  · have hchars : display.chars x = ['0'] := by
      unfold Notation.chars
      rw [hx]
      rfl
    rw [hchars, eq_zero_of_form hx]
    exact ⟨⟨isPlain_cons.2 ⟨by decide, isPlain_nil⟩, '0', rfl, rfl⟩, ⟨0, 0⟩, rfl, Numeral.toFloat_zero 0⟩
  · rw [chars_display_of_form hx hm.ne']
    obtain ⟨n, hn, hvalue⟩ := readsAs_layout (.inl rfl) (shortest m q).1 (shortest m q).2
    have hrounds := shortest_roundsTo hm.ne' (isCanonical_of_form hx)
    rw [← hvalue] at hrounds
    exact ⟨startsPlain_layout _ _, n, hn, n.toFloat_of_roundsTo hx hm hrounds⟩

theorem startsPlain (h : IsUnsigned x) : StartsPlain (display.chars x) := h.exists_numeral.1

theorem readNumeral?_chars (h : IsUnsigned x) : readNumeral? (display.chars x) = some (numeral x) := by
  obtain ⟨-, n, hn, -⟩ := h.exists_numeral
  rw [numeral, hn, Option.getD_some]

/-- **A finite double without a sign is written as a numeral that is read as it.** -/
theorem toFloat_numeral (h : IsUnsigned x) : (numeral x).toFloat = x := by
  obtain ⟨-, n, hn, hvalue⟩ := h.exists_numeral
  rw [numeral, hn, Option.getD_some, hvalue]

end IsUnsigned

end Decimal

/-! ### Texts and the kinds of their tokens -/

/-- Wherever the text `cs` stands, it is cut into tokens of the kinds `ks`. -/
def Spells (cs : List Char) (ks : List Token.Kind) : Prop :=
  ∀ p, ∃ ts : Tokens, Lexes p cs ts ∧ ts.list.map Token.kind = ks

/-- A text spells `ks` and may stand behind a number: no character of it goes on the number. -/
structure SpellsBehind (cs : List Char) (ks : List Token.Kind) : Prop where
  spells : Spells cs ks
  ends : ∀ c ∈ cs.head?, EndsNumber c

/-- The characters that stand between numbers and around them. -/
inductive IsMark : Char → Token.Kind → Prop where
  | comma : IsMark ',' .comma
  | semicolon : IsMark ';' .semicolon
  | openBracket : IsMark '[' .openBracket
  | closeBracket : IsMark ']' .closeBracket

theorem IsMark.lexeme {c : Char} {k : Token.Kind} (hc : IsMark c k) (cs : List Char) :
    lexeme c cs = .ok ⟨some k, [c], cs⟩ := by
  have hclasses : isDigit c = false ∧ isNameStart c = false ∧ ¬ (c = '\n' ∨ c = '\r') ∧ isGap c = false ∧ c ≠ '%' ∧
      Kind.ofChar? c = some k := by
    cases hc <;> decide +kernel
  obtain ⟨hdigit, hname, hend, hgap, hcomment, hkind⟩ := hclasses
  simp only [MatrixCalc.lexeme, hdigit, hname, hend, hgap, hcomment, hkind, Bool.false_eq_true, if_false]

theorem IsMark.endsNumber {c : Char} {k : Token.Kind} (hc : IsMark c k) : EndsNumber c := by
  cases hc <;>
  · constructor <;> decide +kernel

variable {cs : List Char} {ks : List Token.Kind}

theorem spellsBehind_nil : SpellsBehind [] [] := ⟨fun p => ⟨_, .nil p, rfl⟩, fun _ hc => by cases hc⟩

/-- A token in front of a text. -/
theorem Spells.lexeme {c : Char} {ds : List Char} {l : Lexeme} {k : Token.Kind} (hl : lexeme c ds = .ok l)
    (hk : l.kind = some k) (h : Spells l.rest ks) : Spells (c :: ds) (k :: ks) := by
  intro p
  obtain ⟨ts, hts, hkinds⟩ := h (l.after p)
  refine ⟨_, .cons hl hts, ?_⟩
  rw [Lexeme.pushTo, hk, Tokens.list_push, List.map_cons, hkinds]

/-- A mark in front of a text. -/
theorem SpellsBehind.mark {c : Char} {k : Token.Kind} (hc : IsMark c k) (h : Spells cs ks) :
    SpellsBehind (c :: cs) (k :: ks) where
  spells := .lexeme (hc.lexeme cs) rfl h
  ends d hd := by
    obtain rfl := Option.some.inj hd
    exact hc.endsNumber

/-- **A number in front of a text that does not go on it.** -/
theorem SpellsBehind.number {x : Float} (hx : IsUnsigned x) (h : SpellsBehind cs ks) :
    Spells (display.chars x ++ cs) (.number (numeral x) :: ks) := by
  obtain ⟨hplain, c, hc, hdigit⟩ := hx.startsPlain
  have hnumber := numberLexeme_of_readNumeral? hplain hx.readNumeral?_chars
  obtain ⟨ds, hds⟩ := List.head?_eq_some_iff.1 hc
  rw [hds] at hnumber ⊢
  have hlexeme : lexeme c (ds ++ cs) = .ok ⟨some (.number (numeral x)), c :: ds, cs⟩ := by
    rw [lexeme, if_pos hdigit]
    cases cs with
    | nil => rwa [List.append_nil]
    | cons a cs => exact (h.ends a rfl).numberLexeme hnumber cs
  exact .lexeme hlexeme rfl h.spells

end MatrixCalc
