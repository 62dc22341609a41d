/-
**Texts that are not statements.**

Main definitions:

* `MatrixCalc.ParseError.Cause`, `MatrixCalc.ParseError` — what is wrong, and where;
* `MatrixCalc.ParseError.code` — the code under which diagnostics report it;
* `MatrixCalc.ParseError.message` — what is said about it.
-/

import MatrixCalc.Token

set_option autoImplicit false

namespace MatrixCalc

/-- What keeps tokens from being a statement. -/
inductive ParseError.Cause where
  /-- A parenthesis is never closed. -/
  | unmatchedOpenParen
  /-- A parenthesis closes none. -/
  | unmatchedCloseParen
  /-- The text or the statement ends where an operand is due; `text` says so. -/
  | unexpectedEnd (text : String)
  /-- The text ends inside a matrix literal. -/
  | incompleteStatement
  /-- Operands and operators do not fit together; `detail` says how. -/
  | invalidExpression (detail : String)
  /-- A matrix literal has a comma without a cell before it. -/
  | emptyMatrixElement
  /-- A row of a matrix literal has not as many cells as the row before it. -/
  | rowLengths (expected actual : Nat)
  /-- A token stands where something else is due. -/
  | unexpectedToken (expected found : Option String)
  /-- A failure of no further kind. -/
  | other (text : String)
  deriving DecidableEq, Repr

/-- Why tokens are not a statement, and the line and the offset at which this shows. -/
structure ParseError where
  /-- What is wrong. -/
  cause : ParseError.Cause
  /-- The line, if it is known. -/
  line : Option Int
  /-- The number of characters before, if it is known. -/
  offset : Option Int
  deriving DecidableEq, Repr

namespace ParseError

/-- An error at a place in the source. -/
def at_ (p : Position) (cause : Cause) : ParseError := ⟨cause, some p.line, some p.offset⟩

@[simp] theorem cause_at (p : Position) (cause : Cause) : (at_ p cause).cause = cause := rfl

@[simp] theorem line_at (p : Position) (cause : Cause) : (at_ p cause).line = some (p.line : Int) :=
  rfl

@[simp] theorem offset_at (p : Position) (cause : Cause) :
    (at_ p cause).offset = some (p.offset : Int) := rfl

/-- The code under which diagnostics report an error. -/
def code (e : ParseError) : String :=
  match e.cause with
  | .unmatchedOpenParen => "UnmatchedOpenParen"
  | .unmatchedCloseParen => "UnmatchedCloseParen"
  | .unexpectedEnd _ => "UnexpectedEndOfInput"
  | .incompleteStatement => "IncompleteStatement"
  | .invalidExpression _ => "InvalidArithmaticExpression"
  | .emptyMatrixElement => "EmptyMatrixElement"
  | .rowLengths _ _ => "DimensionsMismatch"
  | .unexpectedToken _ _ => "UnexpectedToken"
  | .other _ => "ParseError"

/-- What is said about a missing operand at the end of a text or of a statement. -/
def endOfInput : Cause := .unexpectedEnd "Unexpected end of input tokens array"

/-- A clause of a message, if there is anything to say. -/
def clause (before : String) : Option String → String
  | none => ""
  | some text => before ++ " '" ++ text ++ "'"

/-- What is said about an error. -/
def message (e : ParseError) : String :=
  match e.cause with
  | .unmatchedOpenParen => "Unmatched opening parenthesis"
  | .unmatchedCloseParen => "Unmatched closing parenthesis"
  | .unexpectedEnd text => text
  | .incompleteStatement => "Incomplete statement: matrix literal is not closed"
  | .invalidExpression detail =>
      if detail = "" then "Invalid arithmetic expression"
      else "Invalid arithmetic expression: " ++ detail
  | .emptyMatrixElement => "Empty matrix elements are not allowed"
  | .rowLengths expected actual =>
      "Dimensions mismatch (" ++ toString expected ++ " vs " ++ toString actual ++ ")"
  | .unexpectedToken expected found =>
      "Unexpected token" ++ clause ", expected" expected ++ clause ", found" found
  | .other text => text

end ParseError

end MatrixCalc
