/-
**Diagnostics.**

A diagnostic reports one failed statement, or a text that cannot be cut into tokens.

Main definitions:

* `MatrixCalc.Diagnostic` — the reports;
* `MatrixCalc.Diagnostic.ofLex`, `MatrixCalc.Diagnostic.ofParse`, `MatrixCalc.Diagnostic.ofEval` — the
  reports of the errors there are;
* `MatrixCalc.Diagnostic.text` — a report as one line.
-/

import MatrixCalc.EvalError
import MatrixCalc.Parse.ParseError
import MatrixCalc.Token.LexError

set_option autoImplicit false

namespace MatrixCalc

/-- A report of an error. -/
structure Diagnostic where
  /-- The line, from one. -/
  line : Int
  /-- The code of the error. -/
  code : String
  /-- What is said about it. -/
  message : String
  /-- The column, from one, if the error points at one. -/
  column : Option Int
  deriving DecidableEq, Repr

namespace Diagnostic

/-- A report as one line. -/
def text (d : Diagnostic) : String := d.code ++ " line " ++ toString d.line ++ ": " ++ d.message

/-- The code of texts that cannot be cut into tokens. -/
def lexCode : String := "LexError"

/-- The report of a text that cannot be cut into tokens.  A line that is not known, or zero, is
reported as the first. -/
def lexical (message : String) (line column : Option Int) : Diagnostic :=
  ⟨match line with
    | none => 1
    | some n => if n = 0 then 1 else n, lexCode, message, column⟩

/-- The report of a text that cannot be cut into tokens. -/
def ofLex (e : LexError) : Diagnostic :=
  lexical e.message (some e.position.line) (some e.position.column)

/-- The report of a statement that cannot be parsed; it is on the line `fallback` if the error does not
say. -/
def ofParse (fallback : Int) (e : ParseError) : Diagnostic :=
  ⟨e.line.getD fallback, e.code, e.message, none⟩

/-- The report of a statement on the line `line` that has no value. -/
def ofEval (line : Int) (e : EvalError) : Diagnostic := ⟨line, e.code, e.message, none⟩

end Diagnostic

end MatrixCalc
