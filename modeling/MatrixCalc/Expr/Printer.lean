/-
**Expressions as text.**

An expression is printed in the order of evaluation: `1 + 2 * 3` as `1 2 3 * +`.  Cells of a matrix
literal are separated by a comma, rows by a semicolon, each with a space behind it.

Main definitions:

* `MatrixCalc.Expr.text` — the text of an expression;
* `MatrixCalc.Expr.isVacant` — whether an expression has a vacant node, which has no text;
* `MatrixCalc.Expr.print?`, `MatrixCalc.Statement.print?` — the text, or what is wrong.
-/

import MatrixCalc.Expr
import MatrixCalc.Decimal.Notation

set_option autoImplicit false

namespace MatrixCalc

namespace Expr

mutual

/-- The text of an expression; vacant nodes have none. -/
def text : Expr → String
  | name _ n => n
  | number _ x => Decimal.literal.write x
  | matrix _ rows => "[" ++ String.intercalate "; " (rowTexts rows) ++ "]"
  | operator _ op => op.symbol
  | sequence _ items => String.intercalate " " (texts items)
  | vacant => ""

/-- The texts of some expressions. -/
def texts : List Expr → List String
  | [] => []
  | e :: es => text e :: texts es

/-- The texts of the rows of a matrix literal. -/
def rowTexts : List (List Expr) → List String
  | [] => []
  | row :: rows => String.intercalate ", " (texts row) :: rowTexts rows

end

theorem texts_eq_map (es : List Expr) : texts es = es.map text := by
  induction es with
  | nil => rfl
  | cons e es ih => simp [texts, ih]

theorem rowTexts_eq_map (rows : List (List Expr)) :
    rowTexts rows = rows.map fun row => String.intercalate ", " (row.map text) := by
  induction rows with
  | nil => rfl
  | cons row rows ih => simp [rowTexts, ih, texts_eq_map]

mutual

/-- Whether a vacant node is in an expression. -/
def isVacant : Expr → Bool
  | matrix _ rows => anyRowVacant rows
  | sequence _ items => anyVacant items
  | vacant => true
  | _ => false

/-- Whether a vacant node is in one of some expressions. -/
def anyVacant : List Expr → Bool
  | [] => false
  | e :: es => isVacant e || anyVacant es

/-- Whether a vacant node is in a row of a matrix literal. -/
def anyRowVacant : List (List Expr) → Bool
  | [] => false
  | row :: rows => anyVacant row || anyRowVacant rows

end

/-- The text of an expression without vacant nodes. -/
def print? (e : Expr) : Except Malformed String :=
  if e.isVacant then .error .unknownNode else .ok e.text

/-- The items of a sequence in the order of evaluation; another expression has none. -/
def items? : Expr → Option (List Expr)
  | sequence _ items => some items
  | _ => none

end Expr

/-- The text of a statement: its line, its expression, and what is done with the value. -/
def Statement.text (s : Statement) : String :=
  let flags := (if s.storesAns then ["ans"] else []) ++ (if s.prints then ["print"] else [])
  "stmt@" ++ toString s.line ++ "(" ++ s.expr.text ++ ") [" ++ String.intercalate ", " flags ++ "]"

/-- The text of a statement without vacant nodes. -/
def Statement.print? (s : Statement) : Except Malformed String :=
  if s.expr.isVacant then .error .unknownNode else .ok s.text

end MatrixCalc
