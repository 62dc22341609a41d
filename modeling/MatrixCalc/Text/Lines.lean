/-
**Lines of a text.**

Two rules cut a text into lines.  An editor counts lines by every line separator there is: line
feed, carriage return, the pair of both, vertical tab, form feed, the information separators two to
four, next line, and the line and paragraph separators.  A text that is read from a file or from the
standard input has its carriage returns, with or without a line feed behind them, turned into line
feeds first, and is then cut at the line feeds alone.  By either rule a text that ends in a
separator has no further line behind it.

Main definitions:

* `MatrixCalc.Text.isLineBreak` — whether a character ends a line in an editor;
* `MatrixCalc.Text.lines` — the lines of a text as an editor counts them;
* `MatrixCalc.Text.unifyNewlines` — the text with line feeds for its line ends;
* `MatrixCalc.Text.inputLines` — the lines of a text read from the standard input.
-/

set_option autoImplicit false

namespace MatrixCalc

namespace Text

/-- Whether a character ends a line in an editor. -/
def isLineBreak (c : Char) : Bool :=
  c == '\n' || c == '\r' || c == '\x0b' || c == '\x0c' || c == '\x1c' || c == '\x1d' ||
    c == '\x1e' || c == '\u0085' || c == '\u2028' || c == '\u2029'

/-- The character `c` in front of the first of the lines. -/
def prependToFirst (c : Char) : List (List Char) → List (List Char)
  | [] => [[c]]
  | l :: ls => (c :: l) :: ls

@[simp] theorem prependToFirst_nil (c : Char) : prependToFirst c [] = [[c]] := rfl

@[simp] theorem prependToFirst_cons (c : Char) (l : List Char) (ls : List (List Char)) :
    prependToFirst c (l :: ls) = (c :: l) :: ls := rfl

/-- The lines of a text as an editor counts them, without their ends. -/
def lines : List Char → List (List Char)
  | [] => []
  | '\r' :: '\n' :: cs => [] :: lines cs
  | c :: cs => if isLineBreak c then [] :: lines cs else prependToFirst c (lines cs)

/-- The text with a line feed for every carriage return and every pair of carriage return and line
feed. -/
def unifyNewlines : List Char → List Char
  | [] => []
  | '\r' :: '\n' :: cs => '\n' :: unifyNewlines cs
  | c :: cs => (if c = '\r' then '\n' else c) :: unifyNewlines cs

/-- The lines between line feeds, the last one only if it is not empty. -/
def splitNewlines : List Char → List (List Char)
  | [] => []
  | c :: cs => if c = '\n' then [] :: splitNewlines cs else prependToFirst c (splitNewlines cs)

/-- The lines of a text read from the standard input. -/
def inputLines (s : String) : List String :=
  (splitNewlines (unifyNewlines s.toList)).map String.ofList

end Text

end MatrixCalc
