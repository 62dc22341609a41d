/-
**Number tokens are numbers.**

Without its underscores, the text of a number token is digits, a point and digits, and an `e` with a sign and digits,
where the point and the exponent may be missing, and so may be the sign and the digits behind the point.  The reader of
numbers accepts every such text, and reads the number that the lexer has found.  Behind a number there is neither a
digit nor a letter nor an underscore, so neither a number nor a name follows it without a gap.

Main definitions:

* `MatrixCalc.Token.IsDigits`, `MatrixCalc.Token.IsDigitRun` — one or more digits, without and with underscores;
* `MatrixCalc.Token.NumberText.IsBare`, `MatrixCalc.Token.NumberText.IsGrouped` — the parts of a number, without and
  with underscores;
* `MatrixCalc.Token.NumberText.bare` — the parts of a number without the underscores;
* `MatrixCalc.Token.bareText` — the text of a token without the underscores.

Main results:

* `MatrixCalc.Token.NumberText.isGrouped_scan` — what is scanned are the parts of a number;
* `MatrixCalc.Token.NumberText.IsBare.read?_chars` — **the parts of a number are read as the number that they write**;
* `MatrixCalc.number_of_mem_lex` — **the text of a number token is read as its number, and nothing goes on with it**.
-/

import MatrixCalc.Proofs.Token.Numerals
import MatrixCalc.Proofs.Token.Places

set_option autoImplicit false

namespace MatrixCalc

open Text Token Decimal

/-! ### Digits of any script -/

namespace Text

/-- No digit is blank. -/
theorem isBlank_of_isDigit {c : Char} (h : isDigit c = true) : isBlank c = false := by
  by_contra hblank
  obtain ⟨r, hr, hlo, hhi⟩ := exists_range_of_inRanges (Bool.not_eq_false _ ▸ hblank)
  have hnone : ∀ r ∈ blankRanges, ∀ n ∈ List.range' r.1 (r.2 + 1 - r.1), digitAbove zeroDigits n = none := by
    decide +kernel
  have hvalue := hnone r hr c.toNat (List.mem_range'_1.2 ⟨hlo, by omega⟩)
  rw [isDigit, digitValue?, hvalue] at h
  cases h

/-- What is left out around the text of a number is blank. -/
theorem isBlank_of_isNumberBlank {c : Char} (h : isNumberBlank c = true) : isBlank c = true := by
  simp only [isNumberBlank, Bool.or_eq_true, Bool.and_eq_true, decide_eq_true_eq, beq_iff_eq] at h
  rcases h with (rfl | ⟨hlo, hhi⟩) | ⟨-, hblank⟩
  · decide
  · exact inRanges_of_le hlo hhi _
  · exact hblank

/-- Digits have no capitals. -/
theorem toLower_of_isDigit {c : Char} (h : isDigit c = true) : c.toLower = c := by
  rw [Char.toLower]
  split
  · next hupper =>
      have hrange : 65 ≤ c.toNat ∧ c.toNat ≤ 90 := by
        simpa [UInt32.le_iff_toNat_le] using hupper
      rw [isDigit_of_between (by omega) (by omega)] at h
      cases h
  · rfl

/-- What is no digit counts for nothing. -/
theorem digitsValue_filter (cs : List Char) : digitsValue (cs.filter isDigit) = digitsValue cs := by
  rw [digitsValue, digitsValue, List.foldl_filter]
  refine List.foldl_ext _ _ _ fun n c _ => ?_
  rw [isDigit]
  cases digitValue? c <;> rfl

/-- Nothing is cut off from a text without the characters of the class. -/
theorem trimBy_of_forall {p : Char → Bool} {cs : List Char} (h : ∀ c ∈ cs, p c = false) : trimBy p cs = cs := by
  have hdrop : ∀ {ds : List Char}, (∀ c ∈ ds, p c = false) → ds.dropWhile p = ds := by
    intro ds hds
    cases ds with
    | nil => rfl
    | cons d ds => rw [List.dropWhile_cons, hds d List.mem_cons_self, if_neg (by decide)]
  rw [trimBy, hdrop h, hdrop fun c hc => h c (List.mem_reverse.1 hc), List.reverse_reverse]

end Text

/-! ### Parts of numbers -/

namespace Token

/-- One or more digits. -/
def IsDigits (cs : List Char) : Prop := cs ≠ [] ∧ ∀ c ∈ cs, isDigit c = true

/-- A digit, and digits and underscores behind it. -/
def IsDigitRun (cs : List Char) : Prop :=
  (∃ c ∈ cs.head?, isDigit c = true) ∧ ∀ c ∈ cs, isDigitOrSeparator c = true

/-- A sign, or none. -/
def IsSign (cs : List Char) : Prop := cs = [] ∨ cs = ['+'] ∨ cs = ['-']

variable {cs : List Char}

theorem IsDigits.filter (h : IsDigits cs) : cs.filter isDigit = cs := List.filter_eq_self.2 h.2

theorem IsDigitRun.isDigits_filter (h : IsDigitRun cs) : IsDigits (cs.filter isDigit) := by
  obtain ⟨⟨c, hc, hdigit⟩, -⟩ := h
  have hmem : c ∈ cs.filter isDigit := List.mem_filter.2 ⟨List.mem_of_mem_head? hc, hdigit⟩
  exact ⟨List.ne_nil_of_mem hmem, fun d hd => (List.mem_filter.1 hd).2⟩

/-- Among digits and underscores, what is no underscore is a digit. -/
theorem filter_ne_separator (h : ∀ c ∈ cs, isDigitOrSeparator c = true) :
    cs.filter (· != '_') = cs.filter isDigit := by
  refine List.filter_congr fun c hc => ?_
  rcases Bool.or_eq_true _ _ ▸ h c hc with hdigit | hseparator
  · have hne : c ≠ '_' := by
      rintro rfl
      cases hdigit
    rw [hdigit, bne_iff_ne.2 hne]
  · obtain rfl : c = '_' := by simpa using hseparator
    rfl

theorem IsSign.filter_ne_separator (h : IsSign cs) : cs.filter (· != '_') = cs := by
  rcases h with rfl | rfl | rfl <;> rfl

theorem isDigitRun_takeWhile {c : Char} (hc : isDigit c = true) (cs : List Char) :
    IsDigitRun ((c :: cs).takeWhile isDigitOrSeparator) := by
  refine ⟨⟨c, ?_, hc⟩, fun d hd => isDigitOrSeparator_of_mem_takeWhile hd⟩
  rw [List.takeWhile_cons, isDigitOrSeparator, hc, Bool.true_or, if_pos rfl]
  rfl

theorem isDigitRun_spanDigitRun (h : (spanDigitRun cs).1.isEmpty = false) : IsDigitRun (spanDigitRun cs).1 := by
  rw [spanDigitRun] at h ⊢
  split at h
  · next hdigit =>
      cases cs with
      | nil => cases hdigit
      | cons c cs =>
          rw [if_pos hdigit]
          exact isDigitRun_takeWhile hdigit cs
  · cases h

theorem isSign_spanSign (cs : List Char) : IsSign (spanSign cs).1 := by
  cases cs with
  | nil => exact .inl rfl
  | cons c cs =>
      rw [spanSign]
      split
      · next hc => rcases hc with rfl | rfl <;> simp [IsSign]
      · exact .inl rfl

namespace NumberText

/-- The parts of a number with underscores, which stand behind digits and in front of the sign of the exponent. -/
structure IsGrouped (n : NumberText) : Prop where
  whole : IsDigitRun n.whole
  fraction : ∀ ds ∈ n.fraction, ∀ c ∈ ds, isDigitOrSeparator c = true
  exponent : ∀ e ∈ n.exponent, (∀ c ∈ e.separators, c = '_') ∧ IsSign e.sign ∧ IsDigitRun e.digits

/-- The parts of a number without underscores: digits, digits behind a point if there is a point, and a sign and digits
if there is an exponent. -/
structure IsBare (n : NumberText) : Prop where
  whole : IsDigits n.whole
  fraction : ∀ ds ∈ n.fraction, ∀ c ∈ ds, isDigit c = true
  exponent : ∀ e ∈ n.exponent, e.separators = [] ∧ IsSign e.sign ∧ IsDigits e.digits

/-- The parts of a number without the underscores. -/
def bare (n : NumberText) : NumberText where
  whole := n.whole.filter isDigit
  fraction := n.fraction.map (List.filter isDigit)
  exponent := n.exponent.map fun e => ⟨[], e.sign, e.digits.filter isDigit⟩

theorem isDigitOrSeparator_of_scanFraction {ds : List Char} (h : ds ∈ (scanFraction cs).1) :
    ∀ c ∈ ds, isDigitOrSeparator c = true := by
  fun_cases scanFraction cs with
  | case1 cs =>
      obtain rfl := Option.some.inj h
      exact fun c hc => isDigitOrSeparator_of_mem_takeWhile hc
  | case2 cs hpoint =>
      rw [scanFraction.eq_2 cs hpoint] at h
      cases h

theorem isGrouped_scanExponent {e : ExponentText} (h : e ∈ (scanExponent cs).1) (hdigits : e.digits.isEmpty = false) :
    (∀ c ∈ e.separators, c = '_') ∧ IsSign e.sign ∧ IsDigitRun e.digits := by
  fun_cases scanExponent cs with
  | case1 cs =>
      obtain rfl := Option.some.inj h
      refine ⟨fun c hc => ?_, isSign_spanSign _, isDigitRun_spanDigitRun hdigits⟩
      simpa using List.all_eq_true.1 List.all_takeWhile c hc
  | case2 cs he =>
      rw [scanExponent.eq_2 cs he] at h
      cases h

/-- **What is scanned are the parts of a number**, if the exponent has digits. -/
theorem isGrouped_scan {c : Char} (hc : isDigit c = true) (cs : List Char)
    (hcomplete : (scan (c :: cs)).1.isIncomplete = false) : (scan (c :: cs)).1.IsGrouped where
  whole := isDigitRun_takeWhile hc cs
  fraction _ hds := isDigitOrSeparator_of_scanFraction hds
  exponent e he := by
    rw [isIncomplete, Option.mem_def.1 he] at hcomplete
    exact isGrouped_scanExponent he hcomplete

variable {n : NumberText}

theorem IsGrouped.isBare_bare (h : n.IsGrouped) : n.bare.IsBare where
  whole := h.whole.isDigits_filter
  fraction ds hds := by
    obtain ⟨ds', -, rfl⟩ := Option.map_eq_some_iff.1 hds
    exact fun c hc => (List.mem_filter.1 hc).2
  exponent e he := by
    obtain ⟨e', he', rfl⟩ := Option.map_eq_some_iff.1 he
    obtain ⟨-, hsign, hdigits⟩ := h.exponent e' he'
    exact ⟨rfl, hsign, hdigits.isDigits_filter⟩

/-- **Without its underscores**, the text of a number is that of its parts without theirs. -/
theorem IsGrouped.chars_bare (h : n.IsGrouped) : n.chars.filter (· != '_') = n.bare.chars := by
  have hfraction : n.fractionChars.filter (· != '_') = n.bare.fractionChars := by
    cases hf : n.fraction with
    | none => simp only [fractionChars, bare, hf, Option.map_none, List.filter_nil]
    | some ds =>
        simp only [fractionChars, bare, hf, Option.map_some, ← Token.filter_ne_separator (h.fraction ds hf)]
        rfl
  have hexponent : n.exponentChars.filter (· != '_') = n.bare.exponentChars := by
    cases he : n.exponent with
    | none => simp only [exponentChars, bare, he, Option.map_none, List.filter_nil]
    | some e =>
        obtain ⟨hseparators, hsign, hdigits⟩ := h.exponent e he
        have hnone : e.separators.filter (· != '_') = [] := List.filter_eq_nil_iff.2 fun c hc => by
          simp [hseparators c hc]
        have hchars : e.chars.filter (· != '_') = e.sign ++ e.digits.filter isDigit := by
          rw [ExponentText.chars, List.filter_append, List.filter_append, hnone, List.nil_append,
            hsign.filter_ne_separator, Token.filter_ne_separator hdigits.2]
        simp only [exponentChars, bare, he, Option.map_some]
        exact congrArg ('e' :: ·) hchars
  rw [chars, chars, List.filter_append, List.filter_append, hfraction, hexponent,
    Token.filter_ne_separator h.whole.2]
  rfl

/-- Underscores count for nothing. -/
theorem numeral_bare (n : NumberText) : n.bare.numeral = n.numeral := by
  have hexponent : n.bare.exponentValue = n.exponentValue := by
    cases he : n.exponent with
    | none => simp only [exponentValue, bare, he, Option.map_none]
    | some e => simp only [exponentValue, bare, he, Option.map_some, digitsValue_filter]
  have hfraction : (n.bare.fraction.getD []).filter isDigit = (n.fraction.getD []).filter isDigit := by
    cases hf : n.fraction with
    | none => simp only [bare, hf, Option.map_none]
    | some ds => simp only [bare, hf, Option.map_some, Option.getD_some, List.filter_filter, Bool.and_self]
  rw [numeral, numeral, hexponent, hfraction]
  simp only [bare, List.filter_filter, Bool.and_self]

/-! ### Reading the parts of a number -/

/-- Without underscores, there is nothing to leave out. -/
theorem dropSeparators?_of_forall (h : ∀ c ∈ cs, c ≠ '_') (afterDigit : Bool) :
    dropSeparators? afterDigit cs = some cs := by
  induction cs generalizing afterDigit with
  | nil => rfl
  | cons c cs ih =>
      rw [dropSeparators?, if_neg (h c List.mem_cons_self), ih fun d hd => h d (List.mem_cons_of_mem c hd)]
      rfl

/-- What starts with a digit names no special value. -/
theorem named?_of_isDigit {c : Char} (hc : isDigit c = true) (cs : List Char) : named? (c :: cs) = none := by
  have hhead : ∀ {s : String} {d : Char} {ds : List Char}, s.toList = d :: ds → isDigit d = false →
      String.ofList ((c :: cs).map Char.toLower) ≠ s := by
    rintro s d ds hs hd rfl
    rw [String.toList_ofList, List.map_cons, toLower_of_isDigit hc] at hs
    rw [(List.cons.inj hs).1, hd] at hc
    cases hc
  unfold named?
  split
  · next heq => exact absurd heq (hhead rfl rfl)
  · next heq => exact absurd heq (hhead rfl rfl)
  · next heq => exact absurd heq (hhead rfl rfl)
  · rfl

/-- A sign and digits are read as an exponent. -/
theorem readExponent?_append {sign ds : List Char} (hsign : IsSign sign) (hds : IsDigits ds) :
    readExponent? (sign ++ ds) = some (signed (sign.headD '+') (digitsValue ds)) := by
  have hspan : spanSign (sign ++ ds) = (sign, ds) := by
    rcases hsign with rfl | rfl | rfl
    · obtain ⟨d, ds, rfl⟩ := List.exists_cons_of_ne_nil hds.1
      have hd := hds.2 d List.mem_cons_self
      refine if_neg ?_
      rintro (rfl | rfl) <;> cases hd
    · rfl
    · rfl
  have hdigits : (ds.isEmpty || !ds.all isDigit) = false := by
    rw [List.isEmpty_eq_false_iff.2 hds.1, List.all_eq_true.2 hds.2]
    rfl
  rw [readExponent?_eq, hspan, hdigits, if_neg (by decide)]

namespace IsBare

theorem readScale?_exponentChars (h : n.IsBare) : readScale? n.exponentChars = some n.exponentValue := by
  cases he : n.exponent with
  | none =>
      simp only [exponentChars, exponentValue, he]
      rfl
  | some e =>
      obtain ⟨hseparators, hsign, hdigits⟩ := h.exponent e he
      simp only [exponentChars, exponentValue, he, ExponentText.chars, hseparators, List.nil_append]
      rw [readScale?, if_pos (.inl rfl), readExponent?_append hsign hdigits]

/-- The parts of a number are a numeral. -/
theorem readNumeral?_chars (h : n.IsBare) : readNumeral? n.chars = some n.numeral := by
  have hscale := h.readScale?_exponentChars
  obtain ⟨hne, hwhole⟩ := h.whole
  cases hf : n.fraction with
  | none =>
      have hread := readNumeral?_whole hwhole hne hscale
      simpa only [chars, fractionChars, numeral, hf, List.append_nil, Option.getD_none, List.filter_nil,
        h.whole.filter] using hread
  | some ds =>
      have hread := readNumeral?_fraction hwhole hne (h.fraction ds hf) hscale
      simpa only [chars, fractionChars, numeral, hf, List.append_assoc, List.cons_append, Option.getD_some,
        h.whole.filter, List.filter_eq_self.2 (h.fraction ds hf)] using hread

/-- The characters of a number without underscores. -/
theorem mem_chars (h : n.IsBare) {c : Char} (hc : c ∈ n.chars) : isDigit c = true ∨ c ∈ ['.', 'e', '+', '-'] := by
  rw [chars, List.mem_append, List.mem_append] at hc
  rcases hc with (hwhole | hfraction) | hexponent
  · exact .inl (h.whole.2 c hwhole)
  · rw [fractionChars] at hfraction
    split at hfraction
    · cases hfraction
    · next ds hds =>
        rcases List.mem_cons.1 hfraction with rfl | hdigit
        · exact .inr (by decide)
        · exact .inl (h.fraction ds hds c hdigit)
  · rw [exponentChars] at hexponent
    split at hexponent
    · cases hexponent
    · next e he =>
        obtain ⟨hseparators, hsign, hdigits⟩ := h.exponent e he
        rw [ExponentText.chars, hseparators, List.nil_append] at hexponent
        rcases List.mem_cons.1 hexponent with rfl | hexponent
        · exact .inr (by decide)
        rcases List.mem_append.1 hexponent with hc | hdigit
        · right
          rcases hsign with hsign | hsign | hsign <;> rw [hsign] at hc <;> simp_all
        · exact .inl (hdigits.2 c hdigit)

/-- The text of a number has neither blanks nor underscores. -/
theorem not_blank (h : n.IsBare) {c : Char} (hc : c ∈ n.chars) : isNumberBlank c = false ∧ c ≠ '_' := by
  rcases h.mem_chars hc with hdigit | hmark
  · refine ⟨?_, ?_⟩
    · by_contra hblank
      have hblank' := isBlank_of_isNumberBlank (Bool.not_eq_false _ ▸ hblank)
      rw [isBlank_of_isDigit hdigit] at hblank'
      cases hblank'
    · rintro rfl
      cases hdigit
  · simp only [List.mem_cons, List.not_mem_nil, or_false] at hmark
    rcases hmark with rfl | rfl | rfl | rfl <;> decide

/-- **The parts of a number are read as the number that they write.** -/
theorem read?_chars (h : n.IsBare) : read? (String.ofList n.chars) = some n.numeral.toFloat := by
  obtain ⟨c, cs, hwhole⟩ := List.exists_cons_of_ne_nil h.whole.1
  have hdigit : isDigit c = true := h.whole.2 c (hwhole ▸ List.mem_cons_self)
  obtain ⟨ds, hchars⟩ : ∃ ds, n.chars = c :: ds := by
    rw [chars, hwhole]
    exact ⟨_, rfl⟩
  have hread := h.readNumeral?_chars
  rw [read?, String.toList_ofList, trimBy_of_forall fun c hc => (h.not_blank hc).1,
    dropSeparators?_of_forall fun c hc => (h.not_blank hc).2, Option.bind_some]
  have hmagnitude : readMagnitude? (c :: ds) = some n.numeral.toFloat := by
    rw [readMagnitude?, named?_of_isDigit hdigit, ← hchars, hread, Option.map_some]
  rw [hchars]
  split
  · next heq => rw [(List.cons.inj heq).1] at hdigit; cases hdigit
  · next heq => rw [(List.cons.inj heq).1] at hdigit; cases hdigit
  · exact hmagnitude

end IsBare

end NumberText

/-- The text of a token without the underscores. -/
def bareText (t : Token) : String := String.ofList (t.text.toList.filter (· != '_'))

end Token

/-! ### Number tokens -/

section Lexemes

variable {c : Char} {cs : List Char} {l l' : Lexeme} {n m : Numeral}

/-- A number starts with a digit. -/
theorem numberLexeme_of_lexeme (h : lexeme c cs = .ok l) (hk : l.kind = some (.number n)) :
    isDigit c = true ∧ numberLexeme (c :: cs) = .ok l := by
  simp only [lexeme] at h
  split at h
  · next hc => exact ⟨hc, h⟩
  exfalso
  split at h
  · obtain rfl := Except.ok.inj h
    cases hk
  split at h
  · obtain rfl := Except.ok.inj h
    rw [newlineLexeme] at hk
    split at hk <;> cases hk
  split at h
  · obtain rfl := Except.ok.inj h
    cases hk
  split at h
  · obtain rfl := Except.ok.inj h
    cases hk
  split at h
  · next k hkind =>
      obtain rfl := Except.ok.inj h
      obtain rfl := Option.some.inj hk
      unfold Kind.ofChar? at hkind
      split at hkind <;> cases hkind
  · cases h

/-- **A number without its underscores** is the parts of its number. -/
theorem exists_isBare (h : lexeme c cs = .ok l) (hk : l.kind = some (.number n)) :
    ∃ parts : NumberText, parts.IsBare ∧ l.chars.filter (· != '_') = parts.chars ∧ n = parts.numeral := by
  obtain ⟨hdigit, hnumber⟩ := numberLexeme_of_lexeme h hk
  obtain ⟨hcomplete, -, rfl⟩ := scan_of_numberLexeme hnumber
  have hgrouped := NumberText.isGrouped_scan hdigit cs hcomplete
  refine ⟨_, hgrouped.isBare_bare, hgrouped.chars_bare, ?_⟩
  obtain rfl := Kind.number.inj (Option.some.inj hk)
  exact (NumberText.numeral_bare _).symm

/-- **Neither a name nor a number stands next to a number.** -/
theorem not_word_behind_number {d : Char} {ds : List Char} (h : lexeme c cs = .ok l) (hk : l.kind = some (.number n))
    (hrest : l.rest = d :: ds) (h' : lexeme d ds = .ok l') :
    l'.kind ≠ some .name ∧ ∀ m, l'.kind ≠ some (.number m) := by
  obtain ⟨-, hnumber⟩ := numberLexeme_of_lexeme h hk
  obtain ⟨hdigit, hletter⟩ := numberLexeme_ends hnumber d (by rw [hrest]; rfl)
  refine ⟨fun hname => ?_, fun m hm => ?_⟩
  · obtain ⟨e, he, hstart⟩ := ((lexeme_shape h').isName hname).1.1
    obtain rfl : d = e := Option.some.inj ((head?_chars_lexeme h').symm.trans he)
    rw [isNameStart_of_not hdigit hletter] at hstart
    cases hstart
  · obtain ⟨hd, -⟩ := numberLexeme_of_lexeme h' hm
    rw [isDigitOrSeparator, hd] at hdigit
    cases hdigit

end Lexemes

/-- What stands at the place behind a lexeme is the text behind it. -/
theorem Stands.rest_eq {cs front front' : List Char} {ts : Tokens} {q q' : Position} {l l' : Lexeme}
    (h : Stands .start cs ts q front l) (h' : Stands .start cs ts q' front' l')
    (hoffset : q'.offset = q.offset + l.chars.length) : l.rest = l'.chars ++ l'.rest := by
  have htext : (front ++ l.chars) ++ l.rest = front' ++ (l'.chars ++ l'.rest) := by
    rw [List.append_assoc, ← h.text, ← h'.text]
  have hlength : (front ++ l.chars).length = front'.length := by
    rw [List.length_append, ← h.isBehind.offset, ← h'.isBehind.offset, hoffset]
  exact (List.append_inj htext hlength).2

/-- **Every number token is a number**: without its underscores its text is the parts of a number, it is read as that
number, and neither a name nor a number stands next to it. -/
theorem number_of_mem_lex {source : String} {ts : Tokens} {t : Token} {n : Numeral} (hlex : lex source = .ok ts)
    (ht : t ∈ ts.list) (hk : t.kind = .number n) :
    (∃ parts : NumberText, parts.IsBare ∧ t.bareText.toList = parts.chars ∧ n = parts.numeral) ∧
      read? t.bareText = some n.toFloat ∧
      ∀ u ∈ ts.list, u.position.offset = t.stop → u.kind ≠ .name ∧ ∀ m, u.kind ≠ .number m := by
  have hlexes := lexFrom_eq_ok_iff.1 hlex
  obtain ⟨front, l, hstands, hkind, hchars⟩ := hlexes.exists_stands_of_mem ht
  obtain ⟨c, cs, -, hl⟩ := hstands.exists_lexeme
  rw [hk] at hkind
  obtain ⟨parts, hbare, htext, hn⟩ := exists_isBare hl hkind
  have hbareText : t.bareText = String.ofList parts.chars := by rw [bareText, ← hchars, htext]
  refine ⟨⟨parts, hbare, by rw [hbareText, String.toList_ofList], hn⟩, ?_, fun u hu hnext => ?_⟩
  · rw [hbareText, hbare.read?_chars, hn]
  · obtain ⟨front', l', hstands', hkind', -⟩ := hlexes.exists_stands_of_mem hu
    obtain ⟨d, ds, hd, hl'⟩ := hstands'.exists_lexeme
    -- both tokens are lexemes of one text, so the second one is at the front of what is behind the first
    have hoffset : u.position.offset = t.position.offset + l.chars.length := by
      rw [hnext, Token.stop, hchars, String.length_toList]
    obtain ⟨hname, hnumber⟩ := not_word_behind_number hl hkind ((hstands.rest_eq hstands' hoffset).trans hd) hl'
    rw [hkind'] at hname hnumber
    exact ⟨fun h => hname (congrArg some h), fun m h => hnumber m (congrArg some h)⟩

/-- A number with a point, an exponent and underscores, and a name behind a blank. -/
def groupedNumber : Tokens :=
  ⟨[⟨.number ⟨105, 1⟩, "1_0.5e_+0_2", ⟨0, 1, 1⟩⟩, ⟨.name, "x", ⟨12, 1, 13⟩⟩], ⟨13, 1, 14⟩⟩

theorem lex_groupedNumber : lex "1_0.5e_+0_2 x" = .ok groupedNumber := by
  set_option maxRecDepth 100000 in cbv

theorem number_of_mem_lex_groupedNumber :
    lex "1_0.5e_+0_2 x" = .ok groupedNumber ∧ read? "10.5e+02" = some (Numeral.toFloat ⟨105, 1⟩) ∧
      ∃ t ∈ groupedNumber.list, t.kind = .number ⟨105, 1⟩ ∧ t.bareText = "10.5e+02" ∧
        ∀ u ∈ groupedNumber.list, u.position.offset = t.stop → u.kind ≠ .name ∧ ∀ m, u.kind ≠ .number m := by
  obtain ⟨-, hread, hbehind⟩ := number_of_mem_lex lex_groupedNumber List.mem_cons_self rfl
  exact ⟨lex_groupedNumber, hread, _, List.mem_cons_self, rfl, rfl, hbehind⟩

end MatrixCalc
