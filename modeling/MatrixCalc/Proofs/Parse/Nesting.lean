/-
**How deep a parser is in literals can be counted.**

Whether an expression is a cell is an argument of its parser.  A parser that reads the same tokens can keep
a counter instead, of the literals that it is in: raised at the bracket that opens a literal, lowered when
the literal is left, be it read or not.  An expression is a cell if the counter is not zero.  Such a parser
gives the same, and at its end the counter is what it was at its start, however deep in literals it fails.

Main definitions:

* `MatrixCalc.Parse.Counting.expressionFrom`, `MatrixCalc.Parse.Counting.matrixBody`,
  `MatrixCalc.Parse.Counting.rowsFrom`, `MatrixCalc.Parse.Counting.statement` — the parsers with a counter.

Main results:

* `MatrixCalc.Parse.Counting.restores` — the counter is restored by the parsers of expressions and literals;
* `MatrixCalc.Parse.Counting.statement_zero` — **a statement leaves the counter at zero**, also if it fails.
-/

import MatrixCalc.Parse.Statements
import MatrixCalc.Proofs.Parse.Locality

set_option autoImplicit false

namespace MatrixCalc

namespace Parse.Counting

mutual

/-- Goes on with an expression at the tokens `ts` in `depth` literals; gives the number of literals that it
is in at the end as well. -/
def expressionFrom (finish : Position) (line : Nat) (n : Nat) (s : Pending) (ts : List Token)
    (hn : ts.length ≤ n) (ha : s.afterOperand = true → ts.length < n) (depth : Nat) :
    Outcome Expr n × Nat :=
  match ts with
  | [] => (closeAt finish line (depth != 0) s [] ha, depth)
  | t :: rest =>
      have hr : rest.length < n := Nat.lt_of_lt_of_le (Nat.lt_succ_self _) hn
      match t.kind with
      | .number v =>
          if s.afterOperand then (secondOperand finish line (depth != 0) s t rest ha, depth)
          else
            expressionFrom finish line n (s.pushOperand (.number t.position.line v.toFloat)) rest
              (Nat.le_of_lt hr) (fun _ => hr) depth
      | .name =>
          if s.afterOperand then (secondOperand finish line (depth != 0) s t rest ha, depth)
          else
            expressionFrom finish line n (s.pushOperand (.name t.position.line t.text)) rest
              (Nat.le_of_lt hr) (fun _ => hr) depth
      | .openBracket =>
          if s.afterOperand then (secondOperand finish line (depth != 0) s t rest ha, depth)
          else
            -- the counter is lowered behind the literal, whatever has become of it
            match matrixBody finish rest (depth + 1) with
            | (.error e stop, depth') => (.error e stop, depth' - 1)
            | (.ok rows rest' h, depth') =>
                have hr' : rest'.length < n := Nat.lt_trans h hr
                expressionFrom finish line n (s.pushOperand (.matrix t.position.line rows)) rest'
                  (Nat.le_of_lt hr') (fun _ => hr') (depth' - 1)
      | .operator op =>
          if s.afterOperand then
            expressionFrom finish line n (s.pushOperator t.position.line op) rest
              (Nat.le_of_lt hr) (fun _ => hr) depth
          else (.error (noLeftOperand t op) (t :: rest), depth)
      | .openParen =>
          if s.afterOperand then (.error (parenAfterOperand t) (t :: rest), depth)
          else
            expressionFrom finish line n (s.openParen t) rest (Nat.le_of_lt hr) (fun _ => hr) depth
      | .closeParen =>
          if s.afterOperand then
            match s.closeParen? with
            | some s' => expressionFrom finish line n s' rest (Nat.le_of_lt hr) (fun _ => hr) depth
            | none => (.error (.at_ t.position .unmatchedCloseParen) (t :: rest), depth)
          else (.error (closeWithoutOperand t) (t :: rest), depth)
      | _ => (closeAt finish line (depth != 0) s (t :: rest) ha, depth)
termination_by (ts.length, 0)

/-- The rows of a matrix literal whose bracket has been read and counted. -/
def matrixBody (finish : Position) (ts : List Token) (depth : Nat) :
    Outcome (List (List Expr)) ts.length × Nat :=
  match ts with
  | { kind := .closeBracket, .. } :: rest => (.ok [] rest (Nat.lt_succ_self _), depth)
  | { kind := .comma, position := p, .. } :: rest =>
      (.error (.at_ p .emptyMatrixElement) (ts), depth)
  | ts =>
      match expressionFrom finish (positionOf finish ts).line ts.length .start ts (Nat.le_refl _)
          (by intro h; cases h) depth with
      | (.error e stop, depth') => (.error e stop, depth')
      | (.ok e rest h, depth') =>
          let r := rowsFrom finish (.start e) rest depth'
          (r.1.widen (Nat.le_of_lt h), r.2)
termination_by (ts.length, 1)

/-- Goes on with the rows of a matrix literal at the tokens `ts`. -/
def rowsFrom (finish : Position) (r : Rows) (ts : List Token) (depth : Nat) :
    Outcome (List (List Expr)) ts.length × Nat :=
  match ts with
  | [] => (.error (.at_ finish .incompleteStatement) [], depth)
  | t :: rest =>
      match t.kind with
      | .closeBracket =>
          match r.close with
          | .ok rows => (.ok rows rest (Nat.lt_succ_self _), depth)
          | .error e => (.error (.at_ t.position e) (t :: rest), depth)
      | .comma =>
          if r.commaPending then (.error (.at_ t.position .emptyMatrixElement) (t :: rest), depth)
          else
            let x := rowsFrom finish r.pushComma rest depth
            (x.1.widen (Nat.le_succ _), x.2)
      | .newline =>
          if r.current.isEmpty then
            let x := rowsFrom finish r rest depth
            (x.1.widen (Nat.le_succ _), x.2)
          else match r.lengthError? with
            | some e => (.error (.at_ t.position e) (t :: rest), depth)
            | none =>
                let x := rowsFrom finish (r.nextRow true) rest depth
                (x.1.widen (Nat.le_succ _), x.2)
      | .semicolon =>
          match r.lengthError? with
          | some e => (.error (.at_ t.position e) (t :: rest), depth)
          | none =>
              let x := rowsFrom finish (r.nextRow false) rest depth
              (x.1.widen (Nat.le_succ _), x.2)
      | _ =>
          match expressionFrom finish t.position.line (t :: rest).length .start (t :: rest)
              (Nat.le_refl _) (by intro h; cases h) depth with
          | (.error e stop, depth') => (.error e stop, depth')
          | (.ok e rest' h, depth') =>
              let x := rowsFrom finish (r.pushCell e) rest' depth'
              (x.1.widen (Nat.le_of_lt h), x.2)
termination_by (ts.length, 1)

end

theorem length_lt_of_length_cons_lt {t : Token} {rest ts : List Token}
    (h : (t :: rest).length < ts.length) : rest.length < ts.length := Nat.lt_of_succ_lt h

/-- Parses a statement and what ends it, in `depth` literals. -/
def statement (finish : Position) (ts : List Token) (depth : Nat) : Outcome Statement ts.length × Nat :=
  let line := (positionOf finish ts).line
  match expressionFrom finish line ts.length .start ts (Nat.le_refl _) (by intro h; cases h) depth with
  | (.error e stop, depth') => (.error e stop, depth')
  | (.ok e [] h, depth') => (.ok (toStatement e true line) [] h, depth')
  | (.ok e (t :: rest) h, depth') =>
      match t.kind with
      | .newline => (.ok (toStatement e true line) rest (length_lt_of_length_cons_lt h), depth')
      | .semicolon => (.ok (toStatement e false line) rest (length_lt_of_length_cons_lt h), depth')
      | _ =>
          (.error (.at_ t.position (.unexpectedToken (some endOfText) (some t.describe))) (t :: rest), depth')

/-! ### The counter is restored -/

/-- The parser of expressions with a counter gives the same and restores the counter. -/
def ExpressionRestores (ts : List Token) : Prop :=
  ∀ (finish : Position) (line n : Nat) (s : Pending) (hn : ts.length ≤ n)
    (ha : s.afterOperand = true → ts.length < n) (depth : Nat),
    expressionFrom finish line n s ts hn ha depth =
      (Parse.expressionFrom finish line (depth != 0) n s ts hn ha, depth)

/-- The parser of literals with a counter gives the same and leaves the counter as it was behind the
bracket. -/
def BodyRestores (ts : List Token) : Prop :=
  ∀ (finish : Position) (d : Nat), matrixBody finish ts (d + 1) = (Parse.matrixBody finish ts, d + 1)

/-- The same of the parser of rows. -/
def RowsRestore (ts : List Token) : Prop :=
  ∀ (finish : Position) (r : Rows) (d : Nat),
    rowsFrom finish r ts (d + 1) = (Parse.rowsFrom finish r ts, d + 1)

theorem ExpressionRestores.nil : ExpressionRestores [] := by
  intro finish line n s hn ha depth
  rw [expressionFrom, Parse.expressionFrom]

theorem ExpressionRestores.cons {t : Token} {ts : List Token}
    (hs : ∀ ts', ts'.length ≤ ts.length → ExpressionRestores ts') (hb : BodyRestores ts) :
    ExpressionRestores (t :: ts) := by
  intro finish line n s hn ha depth
  have htail := hs ts (Nat.le_refl _)
  rw [expressionFrom, Parse.expressionFrom]
  cases hk : t.kind with
  | number v | name | operator op | openParen =>
      simp only [htail finish line n]
      split <;> rfl
  | closeParen =>
      simp only [htail finish line n]
      split
      · cases s.closeParen? <;> rfl
      · rfl
  | openBracket =>
      simp only [hb finish depth]
      split
      · rfl
      · cases hm : Parse.matrixBody finish ts with
        | error e stop => rfl
        | ok rows ts' h =>
            have hlength : ts'.length ≤ ts.length := Nat.le_of_lt h
            exact hs ts' hlength finish line n _ _ _ depth
  | _ => rfl

theorem RowsRestore.nil : RowsRestore [] := by
  intro finish r d
  rw [rowsFrom, Parse.rowsFrom]

theorem RowsRestore.cons {t : Token} {ts : List Token} (hs : ExpressionRestores (t :: ts))
    (hr : ∀ ts', ts'.length ≤ ts.length → RowsRestore ts') : RowsRestore (t :: ts) := by
  intro finish r d
  have htail := hr ts (Nat.le_refl _)
  rw [rowsFrom, Parse.rowsFrom]
  cases hk : t.kind with
  | closeBracket =>
      cases r.close <;> rfl
  | comma =>
      simp only [htail finish]
      split <;> rfl
  | newline =>
      simp only [htail finish]
      split
      · rfl
      · cases r.lengthError? <;> rfl
  | semicolon =>
      simp only [htail finish]
      cases r.lengthError? <;> rfl
  | _ =>
      simp only [hs finish]
      have htrue : (d + 1 != 0) = true := rfl
      rw [htrue]
      generalize Parse.expressionFrom finish t.position.line true _ Pending.start _ _ _ = o
      cases o with
      | error e stop => rfl
      | ok e ts' h =>
          have hlength : ts'.length ≤ ts.length := Nat.le_of_lt_succ h
          simp only [hr ts' hlength finish]

theorem BodyRestores.nil : BodyRestores [] := by
  intro finish d
  rw [matrixBody.eq_def, Parse.matrixBody.eq_def]
  simp only [ExpressionRestores.nil finish]
  have htrue : (d + 1 != 0) = true := rfl
  rw [htrue]
  generalize Parse.expressionFrom finish _ true _ Pending.start [] _ _ = o
  cases o with
  | error e stop => rfl
  | ok e ts' h => exact absurd h (Nat.not_lt_zero _)

theorem BodyRestores.cons {t : Token} {ts : List Token} (hs : ExpressionRestores (t :: ts))
    (hr : ∀ ts', ts'.length ≤ ts.length → RowsRestore ts') : BodyRestores (t :: ts) := by
  intro finish d
  obtain ⟨k, text, p⟩ := t
  rw [matrixBody.eq_def, Parse.matrixBody.eq_def]
  cases k with
  | closeBracket => rfl
  | comma => rfl
  | _ =>
      simp only [hs finish]
      have htrue : (d + 1 != 0) = true := rfl
      rw [htrue]
      generalize Parse.expressionFrom finish _ true _ Pending.start _ _ _ = o
      cases o with
      | error e stop => rfl
      | ok e ts' h =>
          have hlength : ts'.length ≤ ts.length := Nat.le_of_lt_succ h
          simp only [hr ts' hlength finish]

/-- **The counter is restored by all three parsers**, by induction on the number of tokens. -/
theorem restores (ts : List Token) : ExpressionRestores ts ∧ BodyRestores ts ∧ RowsRestore ts :=
  tokens_induction ⟨.nil, .nil, .nil⟩ (fun _ _ => .cons) (fun _ _ => .cons) (fun _ _ => .cons) ts

/-- **A statement leaves the counter at zero**, whether it is read or fails, and in literals too. -/
theorem statement_zero (finish : Position) (ts : List Token) :
    statement finish ts 0 = (Parse.statement finish ts, 0) := by
  simp only [statement, Parse.statement, expression, (restores ts).1 finish]
  have hfalse : ((0 : Nat) != 0) = false := rfl
  rw [hfalse]
  generalize Parse.expressionFrom finish _ _ _ Pending.start ts _ _ = o
  cases o with
  | error e stop => rfl
  | ok e rest h =>
      cases rest with
      | nil => rfl
      | cons t rest => cases hk : t.kind <;> simp only [hk]

end Parse.Counting

end MatrixCalc
