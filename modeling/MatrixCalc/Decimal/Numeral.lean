/-
**Reading numbers.**

A numeral is a run of decimal digits of any scripts, a fraction behind a point, and an exponent
behind an `e`, each part but one may be missing.  Its value is the double nearest to the number it
writes, of two equally near ones the even one; a number too large for a double reads as infinite.

A tolerance is given as the text of a number.  Such a text may have blanks around it, a sign, single
underscores between digits, and may name an infinity or a value that is not a number.

Main definitions:

* `MatrixCalc.Decimal.Numeral` — the digits of a number and a power of ten;
* `MatrixCalc.Decimal.Numeral.toFloat` — the nearest double;
* `MatrixCalc.Decimal.readNumeral?` — reads a text that is a numeral from end to end;
* `MatrixCalc.Decimal.read?` — reads the text of a number.
-/

import MatrixCalc.Decimal.Binary
import MatrixCalc.Text.Digit
import MatrixCalc.Text.Blank
import MatrixCalc.Text.Quoted

set_option autoImplicit false

namespace MatrixCalc

namespace Decimal

open Text

/-! ### Values of numerals -/

/-- The number `digits * 10 ^ exponent`. -/
structure Numeral where
  /-- The digits before and behind the point, as one number. -/
  digits : Nat
  /-- The power of ten. -/
  exponent : Int
  deriving DecidableEq, Repr

/-- The numeral of the digits `whole`, the digits `fraction` behind the point, and an exponent. -/
def Numeral.ofParts (whole fraction : List Char) (exponent : Int) : Numeral where
  digits := digitsValue (whole ++ fraction)
  exponent := exponent - fraction.length

/-- The double nearest to a numeral.  Numbers from `10 ^ 400` on are beyond all doubles, and those
below `10 ^ (-400)` round to zero, so huge exponents need no arithmetic. -/
def Numeral.toFloat (n : Numeral) : Float :=
  if n.digits = 0 then 0
  else if 400 < n.exponent then infinity
  else if n.exponent + Nat.log2 n.digits < -400 then 0
  else Float.ofScientific n.digits (decide (n.exponent < 0)) n.exponent.natAbs

/-- The numeral zero reads as zero whatever its exponent. -/
theorem Numeral.toFloat_zero (e : Int) : Numeral.toFloat ⟨0, e⟩ = 0 := rfl

/-! ### Texts of numerals -/

/-- The digits at the front of a text, and what follows. -/
def spanDigits (cs : List Char) : List Char × List Char := (cs.takeWhile isDigit, cs.dropWhile isDigit)

/-- The number behind a sign. -/
def signed (c : Char) (n : Nat) : Int := if c = '-' then -n else n

/-- Reads an exponent without its `e`: an optional sign and one or more digits, to the end. -/
def readExponent? (cs : List Char) : Option Int :=
  let (sign, ds) := match cs with
    | '+' :: ds => ('+', ds)
    | '-' :: ds => ('-', ds)
    | ds => ('+', ds)
  if ds.isEmpty || !ds.all isDigit then none else some (signed sign (digitsValue ds))

/-- Reads what follows the digits of a numeral: nothing, or an exponent. -/
def readScale? : List Char → Option Int
  | [] => some 0
  | c :: cs => if c = 'e' ∨ c = 'E' then readExponent? cs else none

/-- Reads a numeral from end to end: digits, a point and digits, an exponent, of which one digit
must be there before the exponent. -/
def readNumeral? (cs : List Char) : Option Numeral :=
  let (whole, rest) := spanDigits cs
  let (fraction, rest) := match rest with
    | '.' :: rest => spanDigits rest
    | rest => ([], rest)
  if whole.isEmpty && fraction.isEmpty then none
  else (readScale? rest).map (Numeral.ofParts whole fraction)

/-! ### Texts of numbers -/

/-- Whether a character is left out around the text of a number: an ASCII blank, or a blank beyond
ASCII.  The information separators are not. -/
def isNumberBlank (c : Char) : Bool :=
  c == ' ' || (decide ('\t' ≤ c) && decide (c ≤ '\r')) || (decide (127 < c.toNat) && isBlank c)

/-- The text without its underscores, each of which must stand between two digits; `afterDigit`
tells whether the text is preceded by one. -/
def dropSeparators? : Bool → List Char → Option (List Char)
  | _, [] => some []
  | afterDigit, c :: cs =>
      if c = '_' then
        if afterDigit && (cs.head?.map isDigit).getD false then dropSeparators? false cs else none
      else (dropSeparators? (isDigit c) cs).map (c :: ·)

/-- The special value that a text names, in upper or lower case, if it names one. -/
def named? (cs : List Char) : Option Float :=
  match String.ofList (cs.map Char.toLower) with
  | "inf" => some infinity
  | "infinity" => some infinity
  | "nan" => some quietNaN
  | _ => none

/-- Reads a number without a sign. -/
def readMagnitude? (cs : List Char) : Option Float :=
  match named? cs with
  | some x => some x
  | none => (readNumeral? cs).map Numeral.toFloat

/-- Reads the text of a number, from end to end. -/
def read? (s : String) : Option Float :=
  (dropSeparators? false (trimBy isNumberBlank s.toList)).bind fun
    | '-' :: cs => (readMagnitude? cs).map fun x => -x
    | '+' :: cs => readMagnitude? cs
    | cs => readMagnitude? cs

/-- What is said about a text that is no number. -/
def unreadableMessage (s : String) : String := "could not convert string to float: " ++ quoted s

end Decimal

end MatrixCalc
