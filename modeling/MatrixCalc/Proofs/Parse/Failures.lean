/-
**Where parsers fail.**

What each token does where a parser succeeds is said in `MatrixCalc.Proofs.Parse.Locality`.  The same is
said here for the parsers that fail: the token in front is wrong, or ends the expression too early, or the
parser goes on behind it and fails there.

Main definitions:

* `MatrixCalc.Outcome.Fails` — a parser fails, with an error and the tokens at which it stops;
* `MatrixCalc.Parse.Pending.wrongToken?`, `MatrixCalc.Parse.Rows.wrongToken?` — what is wrong with a token.

Main results:

* `MatrixCalc.Parse.expressionFrom_cons_fails`, `MatrixCalc.Parse.matrixBody_cons_fails`,
  `MatrixCalc.Parse.rowsFrom_cons_fails` — one step of each parser;
* `MatrixCalc.Parse.statement_fails_iff` — how a statement fails.
-/

import MatrixCalc.Parse.Statements
import MatrixCalc.Proofs.Parse.Locality

set_option autoImplicit false

namespace MatrixCalc

/-! ### Failure -/

namespace Outcome

variable {α β : Type} {n m : Nat}

/-- The parser fails with the error `e` and stops at the tokens `stop`. -/
def Fails (o : Outcome α n) (e : ParseError) (stop : List Token) : Prop :=
  o.result = .error e ∧ o.rest = stop

@[simp] theorem fails_ok {a : α} {ts stop : List Token} {h : ts.length < n} {e : ParseError} :
    (ok a ts h : Outcome α n).Fails e stop ↔ False := by
  simp [Fails]

@[simp] theorem fails_error {e e' : ParseError} {ts stop : List Token} :
    (error e ts : Outcome α n).Fails e' stop ↔ e = e' ∧ stop = ts := by
  simp [Fails, eq_comm]

@[simp] theorem fails_widen {h : n ≤ m} {o : Outcome α n} {e : ParseError} {stop : List Token} :
    (o.widen h).Fails e stop ↔ o.Fails e stop := by
  cases o <;> simp [widen]

/-- A parser that fails is known by its error and the tokens at which it stops. -/
theorem Fails.eq_error {o : Outcome α n} {e : ParseError} {stop : List Token} (h : o.Fails e stop) :
    o = error e stop := by
  cases o with
  | ok a rest hlt => simp at h
  | error e' stop' =>
      obtain ⟨rfl, rfl⟩ := fails_error.1 h
      rfl

/-- A parser that succeeds is known by its value and the tokens that it leaves. -/
theorem Gives.exists_eq_ok {o : Outcome α n} {a : α} {rest : List Token}
    (h : o.Gives a rest) : ∃ hlt, o = .ok a rest hlt := by
  cases o with
  | ok a' rest' hlt =>
      obtain ⟨rfl, rfl⟩ := gives_ok.1 h
      exact ⟨hlt, rfl⟩
  | error e stop => simp at h

end Outcome

namespace Parse

variable {finish : Position}

/-! ### One token of an expression -/

/-- What is wrong with a token at which an expression neither goes on nor ends. -/
def Pending.wrongToken? (inMatrix : Bool) (s : Pending) (t : Token) : Option ParseError :=
  match t.kind with
  | .number _ | .name | .openBracket =>
      if s.afterOperand && !(inMatrix && s.enclosing.isEmpty) then some (operandAfterOperand t) else none
  | .operator op => if s.afterOperand then none else some (noLeftOperand t op)
  | .openParen => if s.afterOperand then some (parenAfterOperand t) else none
  | .closeParen =>
      if s.afterOperand then
        if s.enclosing.isEmpty then some (.at_ t.position .unmatchedCloseParen) else none
      else some (closeWithoutOperand t)
  | _ => none

theorem closeAt_fails {line : Nat} {inMatrix : Bool} {s : Pending} {ts stop : List Token} {n : Nat}
    {h : s.afterOperand = true → ts.length < n} {e : ParseError} :
    (closeAt finish line inMatrix s ts h).Fails e stop ↔
      close finish line inMatrix s ts = .error e ∧ stop = ts := by
  unfold closeAt close
  by_cases ha : s.afterOperand = true
  · cases s.enclosing <;> simp [ha]
  · simp [ha]

theorem secondOperand_fails {line : Nat} {inMatrix : Bool} {s : Pending} {t : Token}
    {ts stop : List Token} {n : Nat} {h : s.afterOperand = true → (t :: ts).length < n} {e : ParseError}
    (ha : s.afterOperand = true) :
    (secondOperand finish line inMatrix s t ts h).Fails e stop ↔
      (inMatrix && s.enclosing.isEmpty) = false ∧ operandAfterOperand t = e ∧ stop = t :: ts := by
  unfold secondOperand
  cases hm : inMatrix && s.enclosing.isEmpty with
  | false => simp
  | true =>
      -- a cell without an open parenthesis ends here
      have henclosing : s.enclosing = [] := by
        rw [Bool.and_eq_true, List.isEmpty_iff] at hm
        exact hm.2
      simp [closeAt_fails, close, ha, henclosing]

/-- At the end of the text an expression fails if it may not end there. -/
theorem expressionFrom_nil_fails {line : Nat} {inMatrix : Bool} {n : Nat} {s : Pending}
    {hn : ([] : List Token).length ≤ n} {ha : s.afterOperand = true → ([] : List Token).length < n}
    {e : ParseError} {stop : List Token} :
    (expressionFrom finish line inMatrix n s [] hn ha).Fails e stop ↔
      close finish line inMatrix s [] = .error e ∧ stop = [] := by
  rw [expressionFrom]
  exact closeAt_fails

/-- One step of the parser of expressions: the token in front is wrong, the expression may not end before it,
or the parser goes on and fails behind it. -/
theorem expressionFrom_cons_fails {line : Nat} {inMatrix : Bool} {n : Nat} {s : Pending} {t : Token}
    {ts : List Token} {hn : (t :: ts).length ≤ n} {ha : s.afterOperand = true → (t :: ts).length < n}
    {e : ParseError} {stop : List Token} :
    (expressionFrom finish line inMatrix n s (t :: ts) hn ha).Fails e stop ↔
      (s.wrongToken? inMatrix t = some e ∧ stop = t :: ts) ∨
      (t.kind.endsExpression false = true ∧ close finish line inMatrix s (t :: ts) = .error e ∧
        stop = t :: ts) ∨
      (∃ s', s.token? t = some s' ∧ (expressionFrom finish line inMatrix n s' ts
        (Nat.le_of_succ_le hn) fun _ => hn).Fails e stop) ∨
      (t.kind = .openBracket ∧ s.afterOperand = false ∧ ((matrixBody finish ts).Fails e stop ∨
        ∃ rows ts', (matrixBody finish ts).Gives rows ts' ∧ ∃ hn' ha',
          (expressionFrom finish line inMatrix n (s.pushOperand (.matrix t.position.line rows)) ts'
            hn' ha').Fails e stop)) := by
  rw [expressionFrom]
  cases hk : t.kind with
  | number v | name =>
      simp only [hk, Token.Kind.endsExpression, Pending.token?, Pending.wrongToken?, reduceCtorEq]
      cases hs : s.afterOperand with
      | true => cases inMatrix <;> simp [secondOperand_fails hs, and_assoc]
      | false => simp
  | openBracket =>
      simp only [hk, Token.Kind.endsExpression, Pending.token?, Pending.wrongToken?, reduceCtorEq]
      cases hs : s.afterOperand with
      | true => cases inMatrix <;> simp [secondOperand_fails hs, and_assoc]
      | false =>
          cases hm : matrixBody finish ts with
          | error e' stop' => simp
          | ok rows ts' h =>
              simp only [Outcome.gives_ok, Outcome.fails_ok, Bool.false_and, Bool.false_eq_true, if_false,
                reduceCtorEq, false_and, exists_false, true_and, false_or]
              constructor
              · intro he
                exact ⟨rows, ts', ⟨rfl, rfl⟩, _, _, he⟩
              · rintro ⟨_, _, ⟨rfl, rfl⟩, _, _, he⟩
                exact he
  | operator op | openParen =>
      simp only [hk, Token.Kind.endsExpression, Pending.token?, Pending.wrongToken?, reduceCtorEq]
      cases hs : s.afterOperand <;> simp
  | closeParen =>
      simp only [hk, Token.Kind.endsExpression, Pending.token?, Pending.wrongToken?, reduceCtorEq,
        Pending.closeParen?]
      cases hs : s.afterOperand with
      | false => simp
      | true => cases hc : s.enclosing <;> simp
  | _ => simp [hk, Token.Kind.endsExpression, Pending.token?, Pending.wrongToken?, closeAt_fails]

/-! ### The rows of a literal -/

/-- What is wrong with a token that closes a literal or separates cells or rows. -/
def Rows.wrongToken? (r : Rows) (t : Token) : Option ParseError :=
  match t.kind with
  | .closeBracket =>
      match r.close with
      | .ok _ => none
      | .error e => some (.at_ t.position e)
  | .comma => if r.commaPending then some (.at_ t.position .emptyMatrixElement) else none
  | .newline => if r.current.isEmpty then none else r.lengthError?.map (.at_ t.position)
  | .semicolon => r.lengthError?.map (.at_ t.position)
  | _ => none

/-- A literal that is not closed fails at the end of the text. -/
theorem rowsFrom_nil_fails {r : Rows} {e : ParseError} {stop : List Token} :
    (rowsFrom finish r []).Fails e stop ↔ .at_ finish .incompleteStatement = e ∧ stop = [] := by
  rw [rowsFrom]
  exact Outcome.fails_error

/-- One step of the parser of rows: the token in front is wrong, or the parser goes on and fails behind it,
or in the cell that it starts. -/
theorem rowsFrom_cons_fails {r : Rows} {t : Token} {ts : List Token} {e : ParseError}
    {stop : List Token} :
    (rowsFrom finish r (t :: ts)).Fails e stop ↔
      (r.wrongToken? t = some e ∧ stop = t :: ts) ∨
      (∃ r', r.token? t = some r' ∧ (rowsFrom finish r' ts).Fails e stop) ∨
      (t.kind.startsCell = true ∧ ((expression finish true (t :: ts)).Fails e stop ∨
        ∃ x ts', (expression finish true (t :: ts)).Gives x ts' ∧
          (rowsFrom finish (r.pushCell x) ts').Fails e stop)) := by
  rw [rowsFrom]
  cases hk : t.kind with
  | closeBracket =>
      simp only [hk, Rows.token?, Rows.wrongToken?, Token.Kind.startsCell]
      cases r.close <;> simp
  | comma =>
      simp only [hk, Rows.token?, Rows.wrongToken?, Token.Kind.startsCell]
      cases r.commaPending <;> simp
  | newline =>
      simp only [hk, Rows.token?, Rows.wrongToken?, Token.Kind.startsCell]
      cases r.current.isEmpty <;> cases r.lengthError? <;> simp
  | semicolon =>
      simp only [hk, Rows.token?, Rows.wrongToken?, Token.Kind.startsCell]
      cases r.lengthError? <;> simp
  | _ =>
      simp only [hk, Rows.token?, Rows.wrongToken?, Token.Kind.startsCell, expression, positionOf_cons]
      generalize expressionFrom finish t.position.line true _ Pending.start _ _ _ = o
      cases o with
      | error e stop => simp
      | ok e ts' h => simp [and_assoc]

/-- At the end of the text no literal starts. -/
theorem matrixBody_nil_fails {e : ParseError} {stop : List Token} :
    (matrixBody finish []).Fails e stop ↔ .at_ finish .incompleteStatement = e ∧ stop = [] := by
  rw [matrixBody.eq_def]
  simp [expressionFrom, closeAt, Pending.start, missingOperand]

/-- One step of the parser of literals: there is a comma in front, or the first cell or what is behind it
fails. -/
theorem matrixBody_cons_fails {t : Token} {ts : List Token} {e : ParseError} {stop : List Token} :
    (matrixBody finish (t :: ts)).Fails e stop ↔
      (t.kind = .comma ∧ .at_ t.position .emptyMatrixElement = e ∧ stop = t :: ts) ∨
      (t.kind ≠ .closeBracket ∧ t.kind ≠ .comma ∧ ((expression finish true (t :: ts)).Fails e stop ∨
        ∃ x ts', (expression finish true (t :: ts)).Gives x ts' ∧
          (rowsFrom finish (.start x) ts').Fails e stop)) := by
  obtain ⟨k, text, p⟩ := t
  rw [matrixBody.eq_def]
  cases k with
  | closeBracket => simp
  | comma => simp
  | _ =>
      simp only [expression, positionOf_cons]
      generalize expressionFrom finish p.line true _ Pending.start _ _ _ = o
      cases o with
      | error e stop => simp
      | ok e ts' h => simp [and_assoc]

/-! ### Statements -/

/-- What is said about a token behind an expression that does not end the statement. -/
def notEnd (t : Token) : ParseError :=
  .at_ t.position (.unexpectedToken (some endOfText) (some t.describe))

/-- **A statement fails** in its expression, or because something else than its end stands behind it. -/
theorem statement_fails_iff {ts stop : List Token} {e : ParseError} :
    (statement finish ts).Fails e stop ↔
      (expression finish false ts).Fails e stop ∨
      ∃ x t rest, (expression finish false ts).Gives x (t :: rest) ∧ t.kind.isSeparator = false ∧
        notEnd t = e ∧ stop = t :: rest := by
  unfold statement
  cases hx : expression finish false ts with
  | error e' stop' => simp
  | ok x rest hlt =>
      cases rest with
      | nil => simp
      | cons t rest =>
          have hgives : (∃ x' t' rest', (Outcome.ok x (t :: rest) hlt).Gives x' (t' :: rest') ∧
              t'.kind.isSeparator = false ∧ notEnd t' = e ∧ stop = t' :: rest') ↔
              t.kind.isSeparator = false ∧ notEnd t = e ∧ stop = t :: rest := by
            constructor
            · rintro ⟨_, _, _, h, hend⟩
              obtain ⟨rfl, heq⟩ := Outcome.gives_ok.1 h
              cases heq
              exact hend
            · exact fun hend => ⟨x, t, rest, Outcome.gives_ok.2 ⟨rfl, rfl⟩, hend⟩
          rw [hgives]
          cases hk : t.kind <;> simp [hk, Token.Kind.isSeparator, notEnd]

end Parse

end MatrixCalc
