/-
**Blanks.**

Blank are the spaces and line ends of all scripts and the four information separators.  Script
remarks are read with blanks around them dropped, and expected values are compared without any.

Main definitions:

* `MatrixCalc.Text.isBlank` — whether a character is blank;
* `MatrixCalc.Text.dropBlanks`, `MatrixCalc.Text.trim` — a text without the blanks in front of it, or
  on either side;
* `MatrixCalc.Text.withoutBlanks` — a text without any blank.
-/

import MatrixCalc.Text.CharRange

set_option autoImplicit false

namespace MatrixCalc

namespace Text

/-- The code points of the blanks, in increasing order. -/
def blankRanges : List (Nat × Nat) := [
  (9, 13), (28, 32), (133, 133), (160, 160), (5760, 5760), (8192, 8202), (8232, 8233), (8239, 8239),
  (8287, 8287), (12288, 12288)]

/-- Whether a character is blank. -/
def isBlank (c : Char) : Bool := inRanges blankRanges c.toNat

/-- The text from its first character on that is not blank. -/
def dropBlanks (cs : List Char) : List Char := cs.dropWhile isBlank

/-- The text without the characters of the class `p` at either end. -/
def trimBy (p : Char → Bool) (cs : List Char) : List Char :=
  ((cs.dropWhile p).reverse.dropWhile p).reverse

/-- The text without the blanks at either end. -/
def trim (cs : List Char) : List Char := trimBy isBlank cs

/-- The text with every blank left out. -/
def withoutBlanks (cs : List Char) : List Char := cs.filter fun c => !isBlank c

/-- Nothing is left to leave out the second time. -/
theorem withoutBlanks_withoutBlanks (cs : List Char) :
    withoutBlanks (withoutBlanks cs) = withoutBlanks cs := by
  simp [withoutBlanks]

end Text

end MatrixCalc
