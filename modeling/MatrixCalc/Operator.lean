/-
**The binary operators.**

Four arithmetic operators and assignment.  Multiplication and division bind tighter than addition
and subtraction, and these tighter than assignment; the arithmetic operators group to the left,
assignment to the right.

Main definitions:

* `MatrixCalc.Operator` — the operators;
* `MatrixCalc.Operator.symbol`, `MatrixCalc.Operator.ofSymbol?` — the text of an operator and back;
* `MatrixCalc.Operator.precedence`, `MatrixCalc.Operator.groupsRight` — how it binds;
* `MatrixCalc.Operator.appliesBefore` — which of two neighbouring operators is applied first.
-/

import MatrixCalc.Text.Quoted

set_option autoImplicit false

namespace MatrixCalc

/-- The binary operators. -/
inductive Operator where
  /-- Addition, `+`. -/
  | add
  /-- Subtraction, `-`. -/
  | subtract
  /-- Multiplication, `*`. -/
  | multiply
  /-- Division, `/`. -/
  | divide
  /-- Assignment, `=`. -/
  | assign
  deriving DecidableEq, Repr, Inhabited

namespace Operator

/-- All operators. -/
def all : List Operator := [add, subtract, multiply, divide, assign]

/-- The text of an operator. -/
def symbol : Operator → String
  | add => "+"
  | subtract => "-"
  | multiply => "*"
  | divide => "/"
  | assign => "="

/-- The operator with a given text. -/
def ofSymbol? (s : String) : Option Operator := all.find? fun op => op.symbol == s

/-- The text of an operator names it. -/
@[simp] theorem ofSymbol?_symbol (op : Operator) : ofSymbol? op.symbol = some op := by
  cases op <;> rfl

/-- What is said of a text that is no operator. -/
def unknownMessage (s : String) : String := Text.quoted s ++ " is not a valid Operator"

/-- How tightly an operator binds: the higher, the tighter. -/
def precedence : Operator → Nat
  | multiply | divide => 3
  | add | subtract => 2
  | assign => 1

/-- Whether a chain of this operator groups to the right. -/
def groupsRight : Operator → Bool
  | assign => true
  | _ => false

/-- Whether `pending`, which stands to the left of `incoming` and waits for its right operand, is
applied before it. -/
def appliesBefore (pending incoming : Operator) : Bool :=
  if incoming.groupsRight then decide (incoming.precedence < pending.precedence)
  else decide (incoming.precedence ≤ pending.precedence)

end Operator

end MatrixCalc
