/-
**Parsing expressions.**

An expression is read in one pass.  Operands go to the output as they come.  An operator first sends
those pending operators to the output that are applied before it, and then waits itself; a closing
parenthesis and the end of the expression send all that still wait since the parenthesis was opened.
So the output holds the operands and operators in the order of evaluation.

The cells of a matrix literal are expressions.  Inside a literal an operand directly behind an operand
starts the next cell, and neither semicolon nor line end closes a statement.

Main definitions:

* `MatrixCalc.Parse.Pending` — the output, the waiting operators and the open parentheses;
* `MatrixCalc.Parse.Rows` — the finished rows of a literal, and the row that is being read;
* `MatrixCalc.Parse.expressionFrom`, `MatrixCalc.Parse.rowsFrom`, `MatrixCalc.Parse.matrixBody` — an
  expression and a literal, from somewhere within;
* `MatrixCalc.Parse.expression`, `MatrixCalc.Parse.operand`, `MatrixCalc.Parse.matrix` — the parsers.
-/

import MatrixCalc.Expr
import MatrixCalc.Parse.Outcome

set_option autoImplicit false

namespace MatrixCalc

namespace Parse

/-! ### The state of an expression -/

/-- An operator that waits for its right operand, and its line. -/
abbrev Waiting := Nat × Operator

/-- What has been read of an expression. -/
structure Pending where
  /-- The operands and operators that are in order, the last one first. -/
  output : List Expr
  /-- The operators that wait, since the last open parenthesis, the last one first. -/
  waiting : List Waiting
  /-- The open parentheses and the operators that waited when each was opened, the last one first. -/
  enclosing : List (Token × List Waiting)
  /-- Whether the last thing read is an operand. -/
  afterOperand : Bool

/-- Nothing has been read. -/
def Pending.start : Pending := ⟨[], [], [], false⟩

/-- Whether nothing has been read. -/
def Pending.isStart (s : Pending) : Bool := s.output.isEmpty && s.enclosing.isEmpty && !s.afterOperand

/-- A waiting operator as an item of the output. -/
def Waiting.toExpr (w : Waiting) : Expr := .operator w.1 w.2

/-- The output with waiting operators sent to it, the one that came last first. -/
def flush (output : List Expr) (ws : List Waiting) : List Expr :=
  (ws.map Waiting.toExpr).reverse ++ output

@[simp] theorem flush_nil (output : List Expr) : flush output [] = output := rfl

/-- The state behind an operand. -/
def Pending.pushOperand (s : Pending) (e : Expr) : Pending :=
  { s with output := e :: s.output, afterOperand := true }

/-- The state behind an operator: those waiting operators go to the output that are applied before
it. -/
def Pending.pushOperator (s : Pending) (line : Nat) (op : Operator) : Pending :=
  let first (w : Waiting) := w.2.appliesBefore op
  { s with
    output := flush s.output (s.waiting.takeWhile first)
    waiting := (line, op) :: s.waiting.dropWhile first
    afterOperand := false }

/-- The state behind an opening parenthesis. -/
def Pending.openParen (s : Pending) (t : Token) : Pending :=
  { s with waiting := [], enclosing := (t, s.waiting) :: s.enclosing, afterOperand := false }

/-- The state behind a closing parenthesis, if there is one to close. -/
def Pending.closeParen? (s : Pending) : Option Pending :=
  match s.enclosing with
  | [] => none
  | (_, outer) :: enclosing => some ⟨flush s.output s.waiting, outer, enclosing, true⟩

/-- What is wrong with an expression that ends without an operand, at the tokens `ts`. -/
def missingOperand (finish : Position) (inMatrix : Bool) (s : Pending) : List Token → ParseError
  | [] => .at_ finish (if inMatrix then .incompleteStatement else ParseError.endOfInput)
  | t :: _ =>
      .at_ t.position <|
        if s.isStart then
          if t.kind.isSeparator then ParseError.endOfInput
          else .unexpectedToken (some "Expression") (some t.describe)
        else .invalidExpression ("expected an operand before " ++ t.describe)

/-- The expression that ends before the tokens `ts` and started at line `line`. -/
def close (finish : Position) (line : Nat) (inMatrix : Bool) (s : Pending) (ts : List Token) :
    Except ParseError Expr :=
  if s.afterOperand then
    match s.enclosing with
    | (t, _) :: _ => .error (.at_ t.position .unmatchedOpenParen)
    | [] => .ok (.ofItems line (flush s.output s.waiting).reverse)
  else .error (missingOperand finish inMatrix s ts)

/-! ### The state of a matrix literal -/

/-- What has been read of a matrix literal. -/
structure Rows where
  /-- The rows that are finished, the last one first. -/
  finished : List (List Expr)
  /-- The row that is being read, the last cell first. -/
  current : List Expr
  /-- Whether a comma would have no cell before it. -/
  commaPending : Bool
  /-- Whether the row that is being read started at a line end. -/
  afterNewline : Bool

/-- The first cell has been read. -/
def Rows.start (e : Expr) : Rows := ⟨[], [e], false, false⟩

/-- The state behind another cell. -/
def Rows.pushCell (r : Rows) (e : Expr) : Rows :=
  { r with current := e :: r.current, commaPending := false }

/-- The state behind a comma. -/
def Rows.pushComma (r : Rows) : Rows := { r with commaPending := true }

/-- The state behind the end of a row, which is a line end or a semicolon. -/
def Rows.nextRow (r : Rows) (newline : Bool) : Rows :=
  ⟨r.current.reverse :: r.finished, [], true, newline⟩

/-- What is wrong with the row that is being read, if it has not as many cells as the one before. -/
def Rows.lengthError? (r : Rows) : Option ParseError.Cause :=
  match r.finished with
  | [] => none
  | row :: _ =>
      if row.length = r.current.length then none
      else some (.rowLengths row.length r.current.length)

/-- All rows, the one that is being read the last. -/
def Rows.all (r : Rows) : List (List Expr) := (r.current.reverse :: r.finished).reverse

/-- The rows of a literal that is closed now: a line end before the bracket starts no row. -/
def Rows.close (r : Rows) : Except ParseError.Cause (List (List Expr)) :=
  if r.afterNewline && r.current.isEmpty then .ok r.finished.reverse
  else match r.lengthError? with
    | some e => .error e
    | none => .ok r.all

/-! ### The parsers -/

/-- What is said about an operand behind an operand. -/
def operandAfterOperand (t : Token) : ParseError :=
  .at_ t.position (.invalidExpression ("unexpected " ++ t.describe ++ " after an operand"))

/-- What is said about an operator without a left operand. -/
def noLeftOperand (t : Token) (op : Operator) : ParseError :=
  .at_ t.position (.invalidExpression ("operator '" ++ op.symbol ++ "' has no left operand"))

/-- What is said about a parenthesis that opens directly behind an operand. -/
def parenAfterOperand (t : Token) : ParseError :=
  .at_ t.position (.invalidExpression "'(' directly after an operand")

/-- What is said about a parenthesis that closes where an operand is due. -/
def closeWithoutOperand (t : Token) : ParseError :=
  .at_ t.position (.invalidExpression "')' without a preceding operand")

/-- The outcome of an expression that ends before the tokens `ts`. -/
def closeAt (finish : Position) (line : Nat) (inMatrix : Bool) (s : Pending) (ts : List Token)
    {n : Nat} (h : s.afterOperand = true → ts.length < n) : Outcome Expr n :=
  if ha : s.afterOperand = true then
    match close finish line inMatrix s ts with
    | .ok e => .ok e ts (h ha)
    | .error e => .error e ts
  else .error (missingOperand finish inMatrix s ts) ts

/-- The outcome of an expression at an operand behind an operand: the end of the expression, if it is
a cell without an open parenthesis. -/
def secondOperand (finish : Position) (line : Nat) (inMatrix : Bool) (s : Pending) (t : Token)
    (rest : List Token) {n : Nat} (h : s.afterOperand = true → (t :: rest).length < n) :
    Outcome Expr n :=
  if inMatrix && s.enclosing.isEmpty then closeAt finish line inMatrix s (t :: rest) h
  else .error (operandAfterOperand t) (t :: rest)

mutual

/-- Goes on with an expression at the tokens `ts`, of which there were `n` at its start, at line
`line`.  `inMatrix` tells whether the expression is a cell. -/
def expressionFrom (finish : Position) (line : Nat) (inMatrix : Bool) (n : Nat) (s : Pending)
    (ts : List Token) (hn : ts.length ≤ n) (ha : s.afterOperand = true → ts.length < n) :
    Outcome Expr n :=
  match ts with
  | [] => closeAt finish line inMatrix s [] ha
  | t :: rest =>
      have hr : rest.length < n := Nat.lt_of_lt_of_le (Nat.lt_succ_self _) hn
      match t.kind with
      | .number v =>
          if s.afterOperand then secondOperand finish line inMatrix s t rest ha
          else
            expressionFrom finish line inMatrix n
              (s.pushOperand (.number t.position.line v.toFloat)) rest (Nat.le_of_lt hr) fun _ => hr
      | .name =>
          if s.afterOperand then secondOperand finish line inMatrix s t rest ha
          else
            expressionFrom finish line inMatrix n
              (s.pushOperand (.name t.position.line t.text)) rest (Nat.le_of_lt hr) fun _ => hr
      | .openBracket =>
          if s.afterOperand then secondOperand finish line inMatrix s t rest ha
          else
            match matrixBody finish rest with
            | .error e stop => .error e stop
            | .ok rows rest' h =>
                have hr' : rest'.length < n := Nat.lt_trans h hr
                expressionFrom finish line inMatrix n
                  (s.pushOperand (.matrix t.position.line rows)) rest' (Nat.le_of_lt hr') fun _ => hr'
      | .operator op =>
          if s.afterOperand then
            expressionFrom finish line inMatrix n (s.pushOperator t.position.line op) rest
              (Nat.le_of_lt hr) fun _ => hr
          else .error (noLeftOperand t op) (t :: rest)
      | .openParen =>
          if s.afterOperand then .error (parenAfterOperand t) (t :: rest)
          else
            expressionFrom finish line inMatrix n (s.openParen t) rest (Nat.le_of_lt hr) fun _ => hr
      | .closeParen =>
          if s.afterOperand then
            match s.closeParen? with
            | some s' => expressionFrom finish line inMatrix n s' rest (Nat.le_of_lt hr) fun _ => hr
            | none => .error (.at_ t.position .unmatchedCloseParen) (t :: rest)
          else .error (closeWithoutOperand t) (t :: rest)
      | _ => closeAt finish line inMatrix s (t :: rest) ha
termination_by (ts.length, 0)

/-- The rows of a matrix literal whose bracket has been read. -/
def matrixBody (finish : Position) (ts : List Token) : Outcome (List (List Expr)) ts.length :=
  match ts with
  | { kind := .closeBracket, .. } :: rest => .ok [] rest (Nat.lt_succ_self _)
  | { kind := .comma, position := p, .. } :: rest =>
      .error (.at_ p .emptyMatrixElement) (ts)
  | ts =>
      match expressionFrom finish (positionOf finish ts).line true ts.length .start ts
          (Nat.le_refl _) (by intro h; cases h) with
      | .error e stop => .error e stop
      | .ok e rest h => (rowsFrom finish (.start e) rest).widen (Nat.le_of_lt h)
termination_by (ts.length, 1)

/-- Goes on with the rows of a matrix literal at the tokens `ts`. -/
def rowsFrom (finish : Position) (r : Rows) (ts : List Token) :
    Outcome (List (List Expr)) ts.length :=
  match ts with
  | [] => .error (.at_ finish .incompleteStatement) []
  | t :: rest =>
      match t.kind with
      | .closeBracket =>
          match r.close with
          | .ok rows => .ok rows rest (Nat.lt_succ_self _)
          | .error e => .error (.at_ t.position e) (t :: rest)
      | .comma =>
          if r.commaPending then .error (.at_ t.position .emptyMatrixElement) (t :: rest)
          else (rowsFrom finish r.pushComma rest).widen (Nat.le_succ _)
      | .newline =>
          if r.current.isEmpty then (rowsFrom finish r rest).widen (Nat.le_succ _)
          else match r.lengthError? with
            | some e => .error (.at_ t.position e) (t :: rest)
            | none => (rowsFrom finish (r.nextRow true) rest).widen (Nat.le_succ _)
      | .semicolon =>
          match r.lengthError? with
          | some e => .error (.at_ t.position e) (t :: rest)
          | none => (rowsFrom finish (r.nextRow false) rest).widen (Nat.le_succ _)
      | _ =>
          match expressionFrom finish t.position.line true (t :: rest).length .start (t :: rest)
              (Nat.le_refl _) (by intro h; cases h) with
          | .error e stop => .error e stop
          | .ok e rest' h => (rowsFrom finish (r.pushCell e) rest').widen (Nat.le_of_lt h)
termination_by (ts.length, 1)

end

/-- Parses an expression.  The token that ends it is left. -/
def expression (finish : Position) (inMatrix : Bool) (ts : List Token) : Outcome Expr ts.length :=
  expressionFrom finish (positionOf finish ts).line inMatrix ts.length .start ts (Nat.le_refl _)
    (by intro h; cases h)

/-- Parses a matrix literal.  Its first token is passed over whatever it is; there is none at the end
of the text. -/
def matrix (finish : Position) (ts : List Token) : Outcome Expr ts.length :=
  match ts with
  | [] => (matrixBody finish []).map (.matrix finish.line)
  | t :: rest => ((matrixBody finish rest).map (.matrix t.position.line)).widen (Nat.le_succ _)

/-- Parses a single operand. -/
def operand (finish : Position) (ts : List Token) : Outcome Expr ts.length :=
  match ts with
  | [] => .error (.at_ finish (.unexpectedToken (some "Expression") (some endOfText))) []
  | t :: rest =>
      match t.kind with
      | .number v => .ok (.number t.position.line v.toFloat) rest (Nat.lt_succ_self _)
      | .name => .ok (.name t.position.line t.text) rest (Nat.lt_succ_self _)
      | .openBracket => matrix finish (t :: rest)
      | _ =>
          .error (.at_ t.position (.unexpectedToken (some "Expression") (some t.describe))) (t :: rest)

end Parse

end MatrixCalc
