/-
**The text of a number.**

A number starts with a decimal digit and goes on with digits and underscores, which only group them.
A point and more digits and underscores may follow, then an `e` and an exponent: underscores, a sign,
and digits and underscores that start with a digit.  Scanning takes as much as there is; whether the
exponent has digits, and what may follow a number, is for the lexer to say.

Main definitions:

* `MatrixCalc.Token.NumberText`, `MatrixCalc.Token.ExponentText` — the parts of a number;
* `MatrixCalc.Token.NumberText.scan` — the number at the front of a text, and what follows it;
* `MatrixCalc.Token.NumberText.numeral` — the number that the parts write.

Main results:

* `MatrixCalc.Token.NumberText.chars_scan_append` — scanning neither loses nor changes a character.
-/

import MatrixCalc.Token

set_option autoImplicit false

namespace MatrixCalc

namespace Token

open Text

/-- Whether a character goes on a run of digits: a digit, or an underscore between them. -/
def isDigitOrSeparator (c : Char) : Bool := isDigit c || c == '_'

/-- The parts of an exponent behind its `e`. -/
structure ExponentText where
  /-- The underscores before the sign. -/
  separators : List Char
  /-- The sign, if there is one. -/
  sign : List Char
  /-- The digits and the underscores among them; empty if the exponent is not complete. -/
  digits : List Char
  deriving DecidableEq, Repr

/-- The text of an exponent behind its `e`. -/
def ExponentText.chars (e : ExponentText) : List Char := e.separators ++ e.sign ++ e.digits

/-- The sign at the front of a text, and what follows. -/
def spanSign : List Char → List Char × List Char
  | c :: cs => if c = '+' ∨ c = '-' then ([c], cs) else ([], c :: cs)
  | [] => ([], [])

theorem spanSign_append (cs : List Char) : (spanSign cs).1 ++ (spanSign cs).2 = cs := by
  cases cs with
  | nil => rfl
  | cons c cs => simp only [spanSign]; split <;> rfl

/-- The run of digits and underscores at the front of a text, which must start with a digit, and
what follows. -/
def spanDigitRun (cs : List Char) : List Char × List Char :=
  if (cs.head?.map isDigit).getD false then
    (cs.takeWhile isDigitOrSeparator, cs.dropWhile isDigitOrSeparator)
  else ([], cs)

theorem spanDigitRun_append (cs : List Char) : (spanDigitRun cs).1 ++ (spanDigitRun cs).2 = cs := by
  simp only [spanDigitRun]
  split
  · exact List.takeWhile_append_dropWhile
  · rfl

/-- The exponent at the front of a text, behind its `e`, and what follows. -/
def ExponentText.scan (cs : List Char) : ExponentText × List Char :=
  let afterSeparators := cs.dropWhile (· == '_')
  let (sign, afterSign) := spanSign afterSeparators
  let (digits, rest) := spanDigitRun afterSign
  (⟨cs.takeWhile (· == '_'), sign, digits⟩, rest)

theorem ExponentText.chars_scan_append (cs : List Char) :
    (ExponentText.scan cs).1.chars ++ (ExponentText.scan cs).2 = cs := by
  simp only [ExponentText.scan, ExponentText.chars, List.append_assoc, spanDigitRun_append,
    spanSign_append]
  exact List.takeWhile_append_dropWhile

/-- The parts of a number. -/
structure NumberText where
  /-- The digits before the point, and underscores. -/
  whole : List Char
  /-- The digits behind the point, if there is a point, and underscores. -/
  fraction : Option (List Char)
  /-- The exponent, if there is an `e`. -/
  exponent : Option ExponentText
  deriving DecidableEq, Repr

namespace NumberText

/-- The text of the part behind the point, with the point. -/
def fractionChars (n : NumberText) : List Char :=
  match n.fraction with
  | none => []
  | some ds => '.' :: ds

/-- The text of the exponent, with its `e`. -/
def exponentChars (n : NumberText) : List Char :=
  match n.exponent with
  | none => []
  | some e => 'e' :: e.chars

/-- The text of a number. -/
def chars (n : NumberText) : List Char := n.whole ++ n.fractionChars ++ n.exponentChars

/-- The point and the digits at the front of a text, and what follows. -/
def scanFraction : List Char → Option (List Char) × List Char
  | '.' :: cs => (some (cs.takeWhile isDigitOrSeparator), cs.dropWhile isDigitOrSeparator)
  | cs => (none, cs)

/-- The exponent at the front of a text, and what follows. -/
def scanExponent : List Char → Option ExponentText × List Char
  | 'e' :: cs => (some (ExponentText.scan cs).1, (ExponentText.scan cs).2)
  | cs => (none, cs)

/-- The number at the front of a text, and what follows. -/
def scan (cs : List Char) : NumberText × List Char :=
  let (fraction, afterFraction) := scanFraction (cs.dropWhile isDigitOrSeparator)
  let (exponent, rest) := scanExponent afterFraction
  (⟨cs.takeWhile isDigitOrSeparator, fraction, exponent⟩, rest)

theorem scanFraction_append (cs : List Char) :
    (match (scanFraction cs).1 with
      | none => []
      | some ds => '.' :: ds) ++ (scanFraction cs).2 = cs := by
  fun_cases scanFraction cs <;> simp [List.takeWhile_append_dropWhile]

theorem scanExponent_append (cs : List Char) :
    (match (scanExponent cs).1 with
      | none => []
      | some e => 'e' :: e.chars) ++ (scanExponent cs).2 = cs := by
  fun_cases scanExponent cs <;> simp [ExponentText.chars_scan_append]

/-- Scanning neither loses nor changes a character. -/
theorem chars_scan_append (cs : List Char) : (scan cs).1.chars ++ (scan cs).2 = cs := by
  simp only [scan, chars, fractionChars, exponentChars, List.append_assoc, scanExponent_append,
    scanFraction_append]
  exact List.takeWhile_append_dropWhile

/-- A number takes the digit it starts with. -/
theorem chars_scan_ne_nil {c : Char} {cs : List Char} (h : isDigit c = true) :
    (scan (c :: cs)).1.chars ≠ [] := by
  simp [scan, chars, isDigitOrSeparator, h]

/-- Whether the number has an exponent without digits. -/
def isIncomplete (n : NumberText) : Bool :=
  match n.exponent with
  | some e => e.digits.isEmpty
  | none => false

/-- The exponent as a number. -/
def exponentValue (n : NumberText) : Int :=
  match n.exponent with
  | some e => Decimal.signed (e.sign.headD '+') (digitsValue e.digits)
  | none => 0

/-- The number that the parts write; underscores count for nothing. -/
def numeral (n : NumberText) : Decimal.Numeral :=
  .ofParts (n.whole.filter isDigit) ((n.fraction.getD []).filter isDigit) n.exponentValue

end NumberText

end Token

end MatrixCalc
