/-
**Diagnostics as an editor shows them.**

An editor counts lines and characters from zero, up to a greatest number of its own, and marks a range
of the text.  The range of a diagnostic goes from its column, or from the start of its line, to the end of
the line.  A variable without a value is reported as a warning, everything else as an error.

Main definitions:

* `MatrixCalc.Editor.Range` — ranges of a line;
* `MatrixCalc.Editor.Range.check` — whether an editor can represent a range;
* `MatrixCalc.Editor.Report` — a diagnostic as an editor shows it;
* `MatrixCalc.Editor.Report.ofDiagnostic`, `MatrixCalc.Editor.Report.ofDiagnostic?` — the report of a
  diagnostic, and the same if an editor can represent it.
-/

import MatrixCalc.Session.Diagnostic

set_option autoImplicit false

namespace MatrixCalc

namespace Editor

/-- A range of characters on a line, all counted from zero. -/
structure Range where
  line : Int
  /-- The number of characters before the range. -/
  start : Int
  /-- The number of characters before its end. -/
  stop : Int
  deriving DecidableEq, Repr

/-- A place that an editor does not know. -/
inductive PlaceError where
  /-- There is no such line. -/
  | line (n : Int)
  /-- There is no such character. -/
  | character (n : Int)
  deriving DecidableEq, Repr

/-- What is said about a part of a place that is out of range, where an editor counts up to `greatest`. -/
def PlaceError.text (greatest : Int) (part : String) (n : Int) : String :=
  "Position." ++ part ++ " should be in range [0:" ++ toString greatest ++ "], but was " ++
    toString n ++ "."

/-- What is said about a place that an editor does not know. -/
def PlaceError.message (greatest : Int) : PlaceError → String
  | line n => text greatest "line" n
  | character n => text greatest "character" n

/-- Whether a number is one that an editor counts with. -/
def isPlace (greatest n : Int) : Bool := decide (0 ≤ n) && decide (n ≤ greatest)

/-- The first part of a range that an editor does not know, if there is one. -/
def Range.check (greatest : Int) (r : Range) : Except PlaceError Unit :=
  if !isPlace greatest r.line then .error (.line r.line)
  else if !isPlace greatest r.start then .error (.character r.start)
  else if !isPlace greatest r.stop then .error (.character r.stop)
  else .ok ()

/-- How severe a report is. -/
inductive Severity where
  | error
  | warning
  deriving DecidableEq, Repr

/-- A diagnostic as an editor shows it. -/
structure Report where
  /-- What is marked. -/
  range : Range
  /-- How severe it is. -/
  severity : Severity
  /-- The code of the error, if it has one. -/
  code : Option String
  /-- What is said about it. -/
  message : String
  deriving DecidableEq, Repr

/-- Who all reports come from. -/
def sourceName : String := "convector"

/-- How severe an error of a given code is. -/
def severityOf (code : String) : Severity :=
  if code = (EvalError.unbound "").code then .warning else .error

/-- The number of characters of a line, counted from zero; there are none on a line that is not
there. -/
def lineLength (lines : List (List Char)) (line : Int) : Int :=
  if 0 ≤ line then ((lines[line.toNat]?).map fun l => (l.length : Int)).getD 0 else 0

/-- The range from the column, or from the start of the line, to the end of the line. -/
def rangeOf (d : Diagnostic) (lines : List (List Char)) : Range :=
  let stop := lineLength lines (d.line - 1)
  let start := match d.column with
    | none => 0
    | some c => if c = 0 then 0 else c - 1
  ⟨d.line - 1, min start stop, stop⟩

/-- The report of a diagnostic about a text of the given lines. -/
def Report.ofDiagnostic (lines : List (List Char)) (d : Diagnostic) : Report where
  range := rangeOf d lines
  severity := severityOf d.code
  code := if d.code = "" then none else some d.code
  message := d.message

/-- The report of a diagnostic about a text of the given lines, if an editor can represent it. -/
def Report.ofDiagnostic? (greatest : Int) (lines : List (List Char)) (d : Diagnostic) :
    Except PlaceError Report :=
  let r := Report.ofDiagnostic lines d
  (r.range.check greatest).map fun _ => r

/-- The report that evaluating a text has come to an end before its time. -/
def Report.internal (message : String) : Report :=
  ⟨⟨0, 0, 0⟩, .error, none, "Internal error: " ++ message⟩

end Editor

end MatrixCalc
