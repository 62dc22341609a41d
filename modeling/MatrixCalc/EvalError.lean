/-
**Statements that have no value.**

Main definitions:

* `MatrixCalc.EvalError` — why a statement has no value;
* `MatrixCalc.EvalError.code` — the code under which diagnostics report it;
* `MatrixCalc.EvalError.message` — what is said about it.
-/

import MatrixCalc.Dense.Shape

set_option autoImplicit false

namespace MatrixCalc

/-- Why a statement has no value. -/
inductive EvalError where
  /-- A variable has no value. -/
  | unbound (name : String)
  /-- A cell of a matrix literal is a matrix. -/
  | nestedMatrices
  /-- A row has not as many cells as the first one. -/
  | inconsistentWidth (expected actual : Nat)
  /-- The shapes of two matrices do not allow the operation. -/
  | dimensions (left right : Shape)
  /-- The divisor is a matrix without an inverse. -/
  | singularDivisor
  /-- Operands and operators do not make up a value; `detail` says why. -/
  | invalidExpression (detail : String)
  /-- What stands on the left of an assignment is no variable. -/
  | assignmentTarget
  /-- A failure of no further kind. -/
  | other (text : String)
  deriving DecidableEq, Repr

namespace EvalError

/-- The code under which diagnostics report an error. -/
def code : EvalError → String
  | unbound _ => "NonexistantVar"
  | nestedMatrices => "NestedMatrices"
  | inconsistentWidth _ _ => "InconsistantMatrixWidth"
  | dimensions _ _ => "DimensionsMismatch"
  | singularDivisor => "NoninvertibleDivisorMatrix"
  | invalidExpression _ => "InvalidArithmaticExpression"
  | assignmentTarget => "AssignmentToNonVariable"
  | other _ => "EvalError"

/-- What is said about an error. -/
def message : EvalError → String
  | unbound name => "Variable " ++ name ++ " does not exist"
  | nestedMatrices => "Nested matrices are not supported"
  | inconsistentWidth expected actual =>
      "Inconsistent matrix width (expected " ++ toString expected ++ ", found " ++ toString actual ++
        ")"
  | dimensions l r => "Dimensions mismatch (" ++ l.times ++ " vs " ++ r.times ++ ")"
  | singularDivisor => "The divisor matrix is not invertible"
  | invalidExpression detail =>
      if detail = "" then "Invalid arithmetic expression"
      else "Invalid arithmetic expression: " ++ detail
  | assignmentTarget => "Only a variable can be assigned to"
  | other text => text

end EvalError

end MatrixCalc
