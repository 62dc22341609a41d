/-
**Expressions and statements.**

A parsed expression is a single operand or a sequence of operands and operators in the order in which
they are evaluated: operands as they are written, each operator behind both of its operands.  Matrix
literals hold expressions in their cells.

Expressions can also be built directly, and then an operator may stand where an operand is due, a
sequence inside another, and a vacant node anywhere; evaluation answers each of these with a failure.

Main definitions:

* `MatrixCalc.Expr`, `MatrixCalc.Statement` — expressions and statements;
* `MatrixCalc.Expr.ofItems` — items as one expression;
* `MatrixCalc.Expr.assigns` — whether an assignment is among the items of an expression;
* `MatrixCalc.Expr.storesAns` — whether a statement of an expression updates `ans`;
* `MatrixCalc.Malformed` — what is wrong with an expression that no text gives.
-/

import MatrixCalc.Operator

set_option autoImplicit false

namespace MatrixCalc

/-- Expressions.  Every node but the vacant one keeps the line it comes from. -/
inductive Expr where
  /-- A variable, looked up when its value is needed. -/
  | name (line : Int) (name : String)
  | number (line : Int) (value : Float)
  /-- A matrix literal, row by row. -/
  | matrix (line : Int) (rows : List (List Expr))
  /-- An operator of a sequence. -/
  | operator (line : Int) (op : Operator)
  /-- Operands and operators in the order of evaluation. -/
  | sequence (line : Int) (items : List Expr)
  /-- A node of no kind at all. -/
  | vacant
  deriving Inhabited

namespace Expr

/-- Items as one expression: itself if there is only one, else a sequence. -/
def ofItems (line : Int) : List Expr → Expr
  | [e] => e
  | items => .sequence line items

theorem ofItems_of_two_le {line : Int} {items : List Expr} (h : 2 ≤ items.length) :
    ofItems line items = .sequence line items := by
  match items, h with
  | _ :: _ :: _, _ => rfl

/-- Whether a node is the assignment operator. -/
def isAssign : Expr → Bool
  | operator _ .assign => true
  | _ => false

/-- Whether an expression is an assignment operator or has one among its items.  Assignments in the
cells of matrix literals do not count. -/
def assigns : Expr → Bool
  | operator _ op => op == .assign
  | sequence _ items => items.any isAssign
  | _ => false

/-- Whether an expression can be a statement. -/
def isStatement : Expr → Bool
  | operator _ _ | vacant => false
  | _ => true

/-- Whether a statement of an expression updates `ans`: literals and computed values do, reading a
variable and assigning do not. -/
def storesAns : Expr → Bool
  | number _ _ | matrix _ _ => true
  | sequence line items => !assigns (sequence line items)
  | _ => false

end Expr

/-- What is wrong with an expression that was not parsed from a text. -/
inductive Malformed where
  /-- A vacant node has no text and no value. -/
  | unknownNode
  /-- A node that is not a statement neither updates `ans` nor leaves it alone. -/
  | notStatement (node : Expr)

/-- How the messages about malformed expressions name a node. -/
def Expr.kindTitle : Expr → String
  | name _ _ => "Var"
  | number _ _ => "Number"
  | matrix _ _ => "MatrixLit"
  | operator _ _ => "OperatorNode"
  | sequence _ _ => "ArithmeticExpr"
  | vacant => "ExprNode"

/-- What is said about a malformed expression. -/
def Malformed.message : Malformed → String
  | unknownNode => "Unknown expression node: " ++ Expr.kindTitle .vacant
  | notStatement e => "Not a statement expression: " ++ e.kindTitle

/-- Whether a statement of an expression updates `ans`, for an expression that can be one. -/
def Expr.storesAns? (e : Expr) : Except Malformed Bool :=
  if e.isStatement then .ok e.storesAns else .error (.notStatement e)

/-- A statement: an expression and what is to be done with its value. -/
structure Statement where
  expr : Expr
  /-- Whether the value is stored in `ans`, unless it is that of a variable. -/
  storesAns : Bool
  /-- Whether the value is printed. -/
  prints : Bool
  /-- The line the statement starts on. -/
  line : Int
  deriving Inhabited

end MatrixCalc
