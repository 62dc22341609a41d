/-
**What lexemes are made of.**

The characters of a lexeme, and the one behind it, tell its class.  A name is a whole run of word characters.  A
number has digits, underscores, a point, a sign and an `e` only, and neither a digit nor a letter is behind it.
A comment starts with a percent sign and goes on to the end of its line.  Everything else is made of characters
that go on no name.  So no word goes on from one lexeme to the next one.

Main definitions:

* `MatrixCalc.Text.IsName` — the characters of a name;
* `MatrixCalc.Text.separatorChars` — the characters that go on no name and no number;
* `MatrixCalc.Token.isNumberChar` — whether a character can stand in a number;
* `MatrixCalc.Lexeme.Shape` — what a lexeme is made of, and what stands behind it.

Main results:

* `MatrixCalc.lexeme_shape` — **every lexeme has a shape**;
* `MatrixCalc.isWordChar_behind_lexeme` — no word goes on from one lexeme to the next one.
-/

import MatrixCalc.Proofs.Text.Lines
import MatrixCalc.Proofs.Token.Seam

set_option autoImplicit false

namespace MatrixCalc

open Text Token

/-! ### Classes of characters -/

namespace Text

/-- The characters of a name: one that starts it, and others that go on with it. -/
def IsName (cs : List Char) : Prop := (∃ c ∈ cs.head?, isNameStart c = true) ∧ ∀ c ∈ cs, isWordChar c = true

theorem inRanges_of_le {lo hi n : Nat} (hlo : lo ≤ n) (hhi : n ≤ hi) (rs : List (Nat × Nat)) :
    inRanges ((lo, hi) :: rs) n = true := by
  rw [inRanges_cons, if_neg (Nat.not_lt_of_le hlo), decide_eq_true hhi, Bool.true_or]

theorem inRanges_of_tail {lo hi n : Nat} {rs : List (Nat × Nat)} (hlo : lo ≤ n) (h : inRanges rs n = true) :
    inRanges ((lo, hi) :: rs) n = true := by
  rw [inRanges_cons, if_neg (Nat.not_lt_of_le hlo), h, Bool.or_true]

/-- A name starts with a letter or an underscore. -/
theorem isLetter_of_isNameStart {c : Char} (h : isNameStart c = true) : isLetter c = true ∨ c = '_' := by
  simp only [isNameStart, Bool.or_eq_true, Bool.and_eq_true, decide_eq_true_eq, beq_iff_eq] at h
  rcases h with (⟨hlo, hhi⟩ | ⟨hlo, hhi⟩) | rfl
  · exact .inl (inRanges_of_le hlo hhi _)
  · have hupper : 65 ≤ c.toNat := Nat.le_trans (by decide) hlo
    exact .inl (inRanges_of_tail hupper (inRanges_of_le hlo hhi _))
  · exact .inr rfl

theorem isWordChar_of_isNameStart {c : Char} (h : isNameStart c = true) : isWordChar c = true := by
  rcases isLetter_of_isNameStart h with hletter | rfl
  · simp [isWordChar, hletter]
  · simp [isWordChar]

/-- Behind the digits of ASCII there are none for a while. -/
theorem isDigit_of_between {c : Char} (hlo : 58 ≤ c.toNat) (hhi : c.toNat < 1632) : isDigit c = false := by
  have hnone : digitValue? c = none := by
    rw [digitValue?, zeroDigits, digitAbove, if_neg (by omega), if_neg (by omega), digitAbove, if_pos hhi]
  rw [isDigit, hnone]
  rfl

/-- No digit starts a name. -/
theorem isDigit_of_isNameStart {c : Char} (h : isNameStart c = true) : isDigit c = false := by
  simp only [isNameStart, Bool.or_eq_true, Bool.and_eq_true, decide_eq_true_eq, beq_iff_eq] at h
  rcases h with (⟨hlo, hhi⟩ | ⟨hlo, hhi⟩) | rfl
  · exact isDigit_of_between (Nat.le_trans (by decide) hlo) (Nat.lt_of_le_of_lt hhi (by decide))
  · exact isDigit_of_between (Nat.le_trans (by decide) hlo) (Nat.lt_of_le_of_lt hhi (by decide))
  · decide

theorem IsName.eq_cons {cs : List Char} (h : IsName cs) : ∃ c cs', cs = c :: cs' ∧ isNameStart c = true := by
  obtain ⟨c, hc, hstart⟩ := h.1
  obtain ⟨cs', rfl⟩ := List.head?_eq_some_iff.1 hc
  exact ⟨c, cs', rfl, hstart⟩

/-- A name goes on through all word characters. -/
theorem isName_takeWhile {c : Char} (hc : isNameStart c = true) (cs : List Char) :
    IsName (c :: cs.takeWhile isWordChar) := by
  refine ⟨⟨c, rfl, hc⟩, fun d hd => ?_⟩
  rcases List.mem_cons.1 hd with rfl | hd
  · exact isWordChar_of_isNameStart hc
  · exact List.all_eq_true.1 List.all_takeWhile d hd

theorem isWordChar_of_head?_dropWhile {c : Char} {cs : List Char} (h : c ∈ (cs.dropWhile isWordChar).head?) :
    isWordChar c = false := by
  have hend := List.head?_dropWhile_not isWordChar cs
  rw [Option.mem_def.1 h] at hend
  simpa using hend

/-- The characters that end lines, stand between tokens or are tokens by themselves. -/
def separatorChars : List Char :=
  ['\n', '\r', '\x0b', '\x0c', '\x1c', '\x1d', '\x1e', '\u0085', '\u2028', '\u2029', ' ', '\t', '%', '+', '-',
    '*', '/', '=', '(', ')', '[', ']', '{', '}', ',', ';']

/-- None of them goes on a name or a number. -/
theorem isWordChar_of_mem_separatorChars {c : Char} (h : c ∈ separatorChars) : isWordChar c = false := by
  have hall : (separatorChars.all fun c => !isWordChar c) = true := by decide +kernel
  simpa using List.all_eq_true.1 hall c h

theorem mem_separatorChars_of_isLineBreak {c : Char} (h : isLineBreak c = true) : c ∈ separatorChars := by
  simp only [isLineBreak, Bool.or_eq_true, beq_iff_eq, or_assoc] at h
  rcases h with rfl | rfl | rfl | rfl | rfl | rfl | rfl | rfl | rfl | rfl <;> decide

theorem isWordChar_of_isLineBreak {c : Char} (h : isLineBreak c = true) : isWordChar c = false :=
  isWordChar_of_mem_separatorChars (mem_separatorChars_of_isLineBreak h)

theorem isLineBreak_of_isWordChar {c : Char} (h : isWordChar c = true) : isLineBreak c = false := by
  by_contra hbreak
  rw [isWordChar_of_isLineBreak (by simpa using hbreak)] at h
  cases h

theorem isLineEnd_of_isWordChar {c : Char} (h : isWordChar c = true) : isLineEnd c = false := by
  by_contra hend
  rw [isWordChar_of_isLineBreak (isLineBreak_of_isLineEnd (by simpa using hend))] at h
  cases h

/-- No separator stands in a name. -/
theorem IsName.not_mem {cs : List Char} (h : IsName cs) {c : Char} (hc : c ∈ separatorChars) : c ∉ cs := by
  intro hmem
  have hword := h.2 c hmem
  rw [isWordChar_of_mem_separatorChars hc] at hword
  cases hword

/-- Two names that something else stands behind are the same if they stand at the same place. -/
theorem append_inj_of_isWordChar {a b back back' : List Char} (ha : ∀ c ∈ a, isWordChar c = true)
    (hb : ∀ c ∈ b, isWordChar c = true) (hback : ∀ c ∈ back.head?, isWordChar c = false)
    (hback' : ∀ c ∈ back'.head?, isWordChar c = false) (h : a ++ back = b ++ back') : a = b ∧ back = back' := by
  induction a generalizing b with
  | nil =>
      cases b with
      | nil => exact ⟨rfl, h⟩
      | cons d b =>
          have hword := hback d (by rw [List.nil_append] at h; simp [h])
          rw [hb d List.mem_cons_self] at hword
          cases hword
  | cons c a ih =>
      cases b with
      | nil =>
          have hword := hback' c (by rw [List.nil_append] at h; simp [← h])
          rw [ha c List.mem_cons_self] at hword
          cases hword
      | cons d b =>
          obtain ⟨rfl, htail⟩ := List.cons.inj h
          obtain ⟨rfl, hrest⟩ := ih (fun e he => ha e (List.mem_cons_of_mem c he))
            (fun e he => hb e (List.mem_cons_of_mem c he)) htail
          exact ⟨rfl, hrest⟩

end Text

/-! ### Numbers -/

namespace Token

/-- Whether a character can stand in a number. -/
def isNumberChar (c : Char) : Bool := isDigitOrSeparator c || ['.', 'e', '+', '-'].contains c

theorem isNumberChar_of_isDigitOrSeparator {c : Char} (h : isDigitOrSeparator c = true) :
    isNumberChar c = true := by
  rw [isNumberChar, h, Bool.true_or]

theorem isDigitOrSeparator_of_mem_takeWhile {c : Char} {cs : List Char}
    (h : c ∈ cs.takeWhile isDigitOrSeparator) : isDigitOrSeparator c = true :=
  List.all_eq_true.1 List.all_takeWhile c h

theorem isDigitOrSeparator_of_head?_dropWhile {c : Char} {cs : List Char}
    (h : c ∈ (cs.dropWhile isDigitOrSeparator).head?) : isDigitOrSeparator c = false := by
  have hend := List.head?_dropWhile_not isDigitOrSeparator cs
  rw [Option.mem_def.1 h] at hend
  simpa using hend

theorem isDigitOrSeparator_of_mem_spanDigitRun {c : Char} {cs : List Char} (h : c ∈ (spanDigitRun cs).1) :
    isDigitOrSeparator c = true := by
  rw [spanDigitRun] at h
  split at h
  · exact isDigitOrSeparator_of_mem_takeWhile h
  · cases h

theorem isNumberChar_of_mem_exponent {c : Char} {cs : List Char} (h : c ∈ (ExponentText.scan cs).1.chars) :
    isNumberChar c = true := by
  simp only [ExponentText.scan, ExponentText.chars, List.mem_append] at h
  rcases h with (hseparator | hsign) | hdigit
  · have hc : (c == '_') = true := List.all_eq_true.1 List.all_takeWhile c hseparator
    exact isNumberChar_of_isDigitOrSeparator (by rw [isDigitOrSeparator, hc, Bool.or_true])
  · generalize cs.dropWhile (· == '_') = cs at hsign
    cases cs with
    | nil => cases hsign
    | cons d cs =>
        rw [spanSign] at hsign
        split at hsign
        · next hd =>
            obtain rfl := List.mem_singleton.1 hsign
            rcases hd with rfl | rfl <;> rfl
        · cases hsign
  · exact isNumberChar_of_isDigitOrSeparator (isDigitOrSeparator_of_mem_spanDigitRun hdigit)

/-- No name starts with a character that is neither a letter nor goes on a run of digits. -/
theorem isNameStart_of_not {c : Char} (hdigit : isDigitOrSeparator c = false) (hletter : isLetter c = false) :
    isNameStart c = false := by
  by_contra hstart
  rcases isLetter_of_isNameStart (Bool.not_eq_false _ ▸ hstart) with hletter' | rfl
  · rw [hletter] at hletter'
    cases hletter'
  · cases hdigit

namespace NumberText

/-- A number has no other characters. -/
theorem isNumberChar_of_mem_scan {c : Char} {cs : List Char} (h : c ∈ (scan cs).1.chars) :
    isNumberChar c = true := by
  simp only [scan, chars, List.mem_append] at h
  rcases h with (hwhole | hfraction) | hexponent
  · exact isNumberChar_of_isDigitOrSeparator (isDigitOrSeparator_of_mem_takeWhile hwhole)
  · generalize cs.dropWhile isDigitOrSeparator = cs at hfraction
    fun_cases scanFraction cs with
    | case1 cs =>
        rcases List.mem_cons.1 hfraction with rfl | hdigit
        · rfl
        · exact isNumberChar_of_isDigitOrSeparator (isDigitOrSeparator_of_mem_takeWhile hdigit)
    | case2 cs hpoint =>
        rw [scanFraction.eq_2 cs hpoint] at hfraction
        cases hfraction
  · generalize (scanFraction (cs.dropWhile isDigitOrSeparator)).2 = cs at hexponent
    fun_cases scanExponent cs with
    | case1 cs =>
        rcases List.mem_cons.1 hexponent with rfl | hexponent
        · rfl
        · exact isNumberChar_of_mem_exponent hexponent
    | case2 cs he =>
        rw [scanExponent.eq_2 cs he] at hexponent
        cases hexponent

/-- Behind a number that is complete there is no digit. -/
theorem isDigitOrSeparator_behind_scan {c : Char} {cs : List Char} (hcomplete : (scan cs).1.isIncomplete = false)
    (h : c ∈ (scan cs).2.head?) : isDigitOrSeparator c = false := by
  have hfraction : ∀ d ∈ (scanFraction (cs.dropWhile isDigitOrSeparator)).2.head?,
      isDigitOrSeparator d = false := by
    intro d hd
    generalize hrest : cs.dropWhile isDigitOrSeparator = rest at hd
    fun_cases scanFraction rest with
    | case1 rest => exact isDigitOrSeparator_of_head?_dropWhile hd
    | case2 rest hpoint =>
        rw [scanFraction.eq_2 rest hpoint, ← hrest] at hd
        exact isDigitOrSeparator_of_head?_dropWhile hd
  simp only [scan, isIncomplete] at hcomplete h
  generalize (scanFraction (cs.dropWhile isDigitOrSeparator)).2 = rest at hcomplete h hfraction
  fun_cases scanExponent rest with
  | case1 rest =>
      simp only [scanExponent, ExponentText.scan] at hcomplete h
      rw [spanDigitRun] at hcomplete h
      split at h
      · exact isDigitOrSeparator_of_head?_dropWhile h
      · next hdigits => simp [hdigits] at hcomplete
  | case2 rest he =>
      rw [scanExponent.eq_2 rest he] at h
      exact hfraction c h

end NumberText

end Token

/-! ### Lexemes -/

/-- A lexeme is a whole line end. -/
def Lexeme.IsNewline (l : Lexeme) : Prop :=
  l.chars = ['\n'] ∨ l.chars = ['\r', '\n'] ∨ l.chars = ['\r'] ∧ l.rest.head? ≠ some '\n'

theorem isLineEnd_of_newline {l : Lexeme} (h : l.IsNewline) : ∀ c ∈ l.chars, isLineEnd c = true := by
  rcases h with h | h | ⟨h, -⟩ <;> simp [h, isLineEnd]

/-- What a lexeme is made of, and what stands behind it. -/
inductive Lexeme.Shape (l : Lexeme) : Prop where
  | number {n : Decimal.Numeral} (hk : l.kind = some (.number n)) (hdigit : ∃ c ∈ l.chars.head?, isDigit c = true)
      (hchars : ∀ c ∈ l.chars, isNumberChar c = true)
      (hend : ∀ c ∈ l.rest.head?, isDigitOrSeparator c = false ∧ isLetter c = false)
  | name (hk : l.kind = some .name) (hchars : IsName l.chars) (hend : ∀ c ∈ l.rest.head?, isWordChar c = false)
  | newline (hk : l.kind = some .newline) (hchars : l.IsNewline)
  | comment {cs : List Char} (hk : l.kind = none) (hchars : l.chars = '%' :: cs)
      (hcs : ∀ c ∈ cs, isLineEnd c = false) (hend : ∀ c ∈ l.rest.head?, isLineEnd c = true)
  | other (hk : l.kind ≠ some .name ∧ l.kind ≠ some .newline)
      (hchars : ∀ c ∈ l.chars, c ∈ separatorChars ∧ isLineEnd c = false ∧ c ≠ '%')

/-- The characters of a name, and what stands behind it. -/
theorem Lexeme.Shape.isName {l : Lexeme} (h : l.Shape) (hk : l.kind = some .name) :
    IsName l.chars ∧ ∀ c ∈ l.rest.head?, isWordChar c = false := by
  cases h with
  | name _ hchars hend => exact ⟨hchars, hend⟩
  | number hk' => rw [hk] at hk'; cases hk'
  | newline hk' => rw [hk] at hk'; cases hk'
  | comment hk' => rw [hk] at hk'; cases hk'
  | other hk' => exact absurd hk hk'.1

/-- A lexeme starts with the first character of the text. -/
theorem head?_chars_lexeme {c : Char} {cs : List Char} {l : Lexeme} (h : lexeme c cs = .ok l) :
    l.chars.head? = some c := by
  obtain ⟨d, ds, hchars⟩ := List.exists_cons_of_ne_nil (lexeme_chars_ne_nil h)
  have htext := chars_append_rest h
  rw [hchars] at htext
  rw [hchars, List.head?_cons, (List.cons.inj htext).1]

/-- The number at the front of a text is what is scanned, if that is complete and nothing wrong is behind it. -/
theorem scan_of_numberLexeme {cs : List Char} {l : Lexeme} (h : numberLexeme cs = .ok l) :
    (NumberText.scan cs).1.isIncomplete = false ∧ suffixCause? (NumberText.scan cs).2 = none ∧
      l = ⟨some (.number (NumberText.scan cs).1.numeral), (NumberText.scan cs).1.chars, (NumberText.scan cs).2⟩ := by
  simp only [numberLexeme] at h
  split at h
  · cases h
  next hcomplete =>
  split at h
  · cases h
  next hsuffix => exact ⟨Bool.eq_false_iff.2 hcomplete, hsuffix, (Except.ok.inj h).symm⟩

theorem isLetter_of_suffixCause? {c : Char} {cs : List Char} (h : suffixCause? cs = none) (hc : c ∈ cs.head?) :
    isLetter c = false := by
  obtain ⟨ds, rfl⟩ := List.head?_eq_some_iff.1 hc
  rw [suffixCause?] at h
  split at h
  · cases h
  · split at h
    · cases h
    · next hletter => exact Bool.eq_false_iff.2 hletter

/-- Neither a digit nor an underscore nor a letter is behind a number. -/
theorem numberLexeme_ends {cs : List Char} {l : Lexeme} (h : numberLexeme cs = .ok l) :
    ∀ c ∈ l.rest.head?, isDigitOrSeparator c = false ∧ isLetter c = false := by
  obtain ⟨hcomplete, hsuffix, rfl⟩ := scan_of_numberLexeme h
  exact fun c hc => ⟨NumberText.isDigitOrSeparator_behind_scan hcomplete hc, isLetter_of_suffixCause? hsuffix hc⟩

/-- **Every lexeme has a shape.** -/
theorem lexeme_shape {c : Char} {cs : List Char} {l : Lexeme} (h : lexeme c cs = .ok l) : l.Shape := by
  simp only [lexeme] at h
  split at h
  · next hc =>
      have hends := numberLexeme_ends h
      obtain ⟨-, -, rfl⟩ := scan_of_numberLexeme h
      refine .number rfl ⟨c, ?_, hc⟩ (fun d hd => NumberText.isNumberChar_of_mem_scan hd) hends
      obtain ⟨d, ds, hchars⟩ := List.exists_cons_of_ne_nil (NumberText.chars_scan_ne_nil hc)
      have hfront := NumberText.chars_scan_append (c :: cs)
      rw [hchars] at hfront
      simp only [hchars, List.head?_cons, Option.mem_def, Option.some.injEq]
      exact (List.cons.inj hfront).1
  split at h
  · next hc =>
      obtain rfl := Except.ok.inj h
      exact .name rfl (isName_takeWhile hc cs) fun d hd => isWordChar_of_head?_dropWhile hd
  split at h
  · next hc =>
      obtain rfl := Except.ok.inj h
      by_cases hpair : c = '\r' ∧ cs.head? = some '\n'
      · rw [newlineLexeme, if_pos hpair]
        exact .newline rfl (.inr (.inl (by rw [hpair.1])))
      · rw [newlineLexeme, if_neg hpair]
        rcases hc with rfl | rfl
        · exact .newline rfl (.inl rfl)
        · exact .newline rfl (.inr (.inr ⟨rfl, fun hhead => hpair ⟨rfl, hhead⟩⟩))
  split at h
  · next hc =>
      obtain rfl := Except.ok.inj h
      refine .other ⟨by simp [Lexeme.run], by simp [Lexeme.run]⟩ fun d hd => ?_
      have hd' : isGap d = true := by
        rcases List.mem_cons.1 hd with rfl | hd
        · exact hc
        · exact List.all_eq_true.1 List.all_takeWhile d hd
      simp only [isGap, Bool.or_eq_true, beq_iff_eq, or_assoc] at hd'
      rcases hd' with rfl | rfl | rfl | rfl <;> decide
  split at h
  · next hc =>
      obtain rfl := Except.ok.inj h
      obtain rfl : c = '%' := hc
      refine .comment rfl rfl (fun d hd => ?_) fun d hd => ?_
      · have hd' : isComment d = true := List.all_eq_true.1 List.all_takeWhile d hd
        simpa [isComment, isLineEnd] using hd'
      · have hend := List.head?_dropWhile_not isComment cs
        rw [show (cs.dropWhile isComment).head? = some d from hd] at hend
        simpa [isComment, isLineEnd, Classical.or_iff_not_imp_left] using hend
  split at h
  · next k hk =>
      obtain rfl := Except.ok.inj h
      have hchar : (k ≠ .name ∧ k ≠ .newline) ∧ c ∈ separatorChars ∧ isLineEnd c = false ∧ c ≠ '%' := by
        unfold Kind.ofChar? at hk
        split at hk <;> cases hk <;> decide
      exact .other ⟨by simpa using hchar.1.1, by simpa using hchar.1.2⟩ fun d hd => by
        obtain rfl := List.mem_singleton.1 hd
        exact hchar.2
  · cases h

/-- No name goes on from one lexeme to the next one. -/
theorem isWordChar_behind_lexeme {c d : Char} {cs ds : List Char} {l l' : Lexeme} (h : lexeme c cs = .ok l)
    (hrest : l.rest = d :: ds) (h' : lexeme d ds = .ok l') :
    ∀ a ∈ l.chars.getLast?, isWordChar a = true → isWordChar d = false := by
  intro a ha hword
  have hmem : a ∈ l.chars := List.mem_of_mem_getLast? ha
  have hd : d ∈ l.rest.head? := by rw [hrest]; rfl
  cases lexeme_shape h with
  | number hk hdigit hchars hend =>
      -- what stands behind a number is no letter, digit or underscore, so the next lexeme is no word
      obtain ⟨hdigit', hletter⟩ := hend d hd
      have hhead := head?_chars_lexeme h'
      cases lexeme_shape h' with
      | number hk hdigit hchars hend =>
          obtain ⟨e, he, hdigit⟩ := hdigit
          obtain rfl : d = e := Option.some.inj (hhead.symm.trans he)
          simp [isDigitOrSeparator, hdigit] at hdigit'
      | name hk hchars hend =>
          obtain ⟨e, he, hstart⟩ := hchars.1
          obtain rfl : d = e := Option.some.inj (hhead.symm.trans he)
          rw [isNameStart_of_not hdigit' hletter] at hstart
          cases hstart
      | newline hk hchars =>
          have hend := isLineEnd_of_newline hchars d (List.mem_of_mem_head? hhead)
          exact isWordChar_of_isLineBreak (isLineBreak_of_isLineEnd hend)
      | comment hk hchars hcs hend =>
          obtain rfl : '%' = d := by simpa [hchars] using hhead
          exact isWordChar_of_mem_separatorChars (by decide)
      | other hk hchars =>
          exact isWordChar_of_mem_separatorChars (hchars d (List.mem_of_mem_head? hhead)).1
  | name hk hchars hend => exact hend d hd
  | newline hk hchars =>
      rw [isWordChar_of_isLineBreak (isLineBreak_of_isLineEnd (isLineEnd_of_newline hchars a hmem))] at hword
      cases hword
  | comment hk hchars hcs hend => exact isWordChar_of_isLineBreak (isLineBreak_of_isLineEnd (hend d hd))
  | other hk hchars =>
      rw [isWordChar_of_mem_separatorChars (hchars a hmem).1] at hword
      cases hword

end MatrixCalc
