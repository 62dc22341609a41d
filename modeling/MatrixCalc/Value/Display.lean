/-
**Values as text.**

A number is shown with its fewest digits.  A matrix is shown on several lines, one for each row between
two brackets, with the cells of a column ending at the same place; a matrix without cells is shown as
`[]`.  On a single line, as in a literal, commas stand between cells and semicolons between rows.  Data
dumps show a value with every number as what it is.

Main definitions:

* `MatrixCalc.Display.matrixLines` — the lines of a matrix;
* `MatrixCalc.Value.text` — a value as results show it;
* `MatrixCalc.Value.compact` — a value on a single line;
* `MatrixCalc.Value.dump` — a value in a data dump.
-/

import MatrixCalc.Decimal.Notation
import MatrixCalc.Value

set_option autoImplicit false

namespace MatrixCalc

namespace Display

/-- A text filled up with spaces in front to the width `w`. -/
def padLeft (w : Nat) (cs : List Char) : List Char := List.replicate (w - cs.length) ' ' ++ cs

@[simp] theorem length_padLeft (w : Nat) (cs : List Char) :
    (padLeft w cs).length = max w cs.length := by
  simp only [padLeft, List.length_append, List.length_replicate]
  omega

/-- The texts, separated by `separator`. -/
def join (separator : List Char) : List (List Char) → List Char
  | [] => []
  | [cs] => cs
  | cs :: rest => cs ++ separator ++ join separator rest

/-- The width of each of `n` columns: that of its longest cell. -/
def widths (n : Nat) (rows : List (List (List Char))) : List Nat :=
  rows.foldl (fun ws row => List.zipWith (fun w cell => max w cell.length) ws row) (List.replicate n 0)

/-- The line of a row whose columns have the widths `ws`. -/
def rowLine (ws : List Nat) (row : List (List Char)) : List Char :=
  ' ' :: ' ' :: join [' ', ' '] (List.zipWith padLeft ws row)

/-- The texts of the cells. -/
def cellTexts (rows : List (List Float)) : List (List (List Char)) :=
  rows.map fun row => row.map Decimal.display.chars

/-- The lines of a matrix. -/
def matrixLines (a : DenseMatrix Float) : List (List Char) :=
  let texts := cellTexts a.rows
  [['[']] ++ texts.map (rowLine (widths a.ncols texts)) ++ [[']']]

/-- The text of a matrix. -/
def matrixChars (a : DenseMatrix Float) : List Char :=
  if a.isEmpty then ['[', ']'] else join ['\n'] (matrixLines a)

/-- A matrix on a single line. -/
def compactChars (a : DenseMatrix Float) : List Char :=
  '[' :: join [';'] ((cellTexts a.rows).map (join [','])) ++ [']']

/-- A row in a data dump. -/
def dumpRow (row : List Float) : String :=
  "[" ++ String.intercalate ", " (row.map Decimal.roundTrip.write) ++ "]"

/-- Rows in a data dump. -/
def dumpRows (rows : List (List Float)) : String :=
  "[" ++ String.intercalate ", " (rows.map dumpRow) ++ "]"

end Display

namespace Value

/-- A value as results show it. -/
def text : Value Float → String
  | scalar x => Decimal.display.write x
  | matrix a => String.ofList (Display.matrixChars a)

/-- A value on a single line. -/
def compact : Value Float → String
  | scalar x => Decimal.display.write x
  | matrix a => String.ofList (Display.compactChars a)

/-- A value in a data dump. -/
def dump : Value Float → String
  | scalar x => "Scalar(value=" ++ Decimal.roundTrip.write x ++ ")"
  | matrix a => "Matrix(" ++ Display.dumpRows a.rows ++ ")"

end Value

end MatrixCalc
