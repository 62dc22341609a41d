/-
**Parsers look no further than the token behind what they read.**

The parser of expressions decides token by token.  What each token does is said here once: it ends the
expression, it changes the state, or it opens a matrix literal whose rows are read first.  The same is
said for the rows of a literal.  From this it follows that a literal reads the same tokens whatever
comes behind its closing bracket, and that an expression depends on one token more than it reads.

Main definitions:

* `MatrixCalc.Outcome.Gives` — a parser succeeds, with a value and the tokens it leaves;
* `MatrixCalc.Parse.Pending.Closes` — the state in which an expression may end, and the expression;
* `MatrixCalc.Token.Kind.endsExpression` — the tokens at which an expression ends;
* `MatrixCalc.Parse.Pending.token?`, `MatrixCalc.Parse.Rows.token?` — what a single token does.

Main results:

* `MatrixCalc.Parse.expressionFrom_cons_gives`, `MatrixCalc.Parse.matrixBody_cons_gives`,
  `MatrixCalc.Parse.rowsFrom_cons_gives` — one step of each parser;
* `MatrixCalc.Parse.matrixBody_local` — a literal does not depend on what comes behind it;
* `MatrixCalc.Parse.expressionFrom_append` — an expression ends before a token as it does at the end of a text.
-/

import MatrixCalc.Parse.Expression

set_option autoImplicit false

namespace MatrixCalc

/-! ### Success -/

namespace Outcome

variable {α β : Type} {n m : Nat}

/-- The parser succeeds with the value `a` and leaves the tokens `rest`. -/
def Gives (o : Outcome α n) (a : α) (rest : List Token) : Prop := o.result = .ok a ∧ o.rest = rest

@[simp] theorem gives_ok {a b : α} {ts rest : List Token} {h : ts.length < n} :
    (ok a ts h : Outcome α n).Gives b rest ↔ a = b ∧ ts = rest := by
  simp [Gives]

@[simp] theorem gives_error {e : ParseError} {ts rest : List Token} {b : α} :
    (error e ts : Outcome α n).Gives b rest ↔ False := by
  simp [Gives]

@[simp] theorem gives_widen {h : n ≤ m} {o : Outcome α n} {b : α} {rest : List Token} :
    (o.widen h).Gives b rest ↔ o.Gives b rest := by
  cases o <;> simp [widen]

@[simp] theorem gives_map {f : α → β} {o : Outcome α n} {b : β} {rest : List Token} :
    (o.map f).Gives b rest ↔ ∃ a, o.Gives a rest ∧ f a = b := by
  cases o with
  | ok a ts h =>
      simp only [map, gives_ok]
      constructor
      · rintro ⟨rfl, rfl⟩
        exact ⟨a, ⟨rfl, rfl⟩, rfl⟩
      · rintro ⟨_, ⟨rfl, rfl⟩, rfl⟩
        exact ⟨rfl, rfl⟩
  | error => simp [map]

/-- A success leaves fewer tokens than there were. -/
theorem Gives.length_lt {o : Outcome α n} {a : α} {rest : List Token} (h : o.Gives a rest) :
    rest.length < n := by
  obtain ⟨h, rfl⟩ := h
  exact length_rest_lt_of_result h

/-- A parser gives one result only. -/
theorem Gives.unique {o : Outcome α n} {a b : α} {rest rest' : List Token} (h : o.Gives a rest)
    (h' : o.Gives b rest') : a = b ∧ rest = rest' := by
  obtain ⟨h, rfl⟩ := h
  obtain ⟨h', rfl⟩ := h'
  rw [h] at h'
  exact ⟨Except.ok.inj h', rfl⟩

end Outcome

/-- Whether an expression may end before a token of this kind; before an operand only a cell does. -/
def Token.Kind.endsExpression (inMatrix : Bool) : Token.Kind → Bool
  | .number _ | .name | .openBracket => inMatrix
  | .operator _ | .openParen | .closeParen => false
  | .closeBracket | .openBrace | .closeBrace | .comma | .semicolon | .newline => true

/-- Whether a token of this kind neither closes a literal nor separates cells or rows. -/
def Token.Kind.startsCell : Token.Kind → Bool
  | .closeBracket | .comma | .newline | .semicolon => false
  | _ => true

namespace Parse

/-! ### One token of an expression -/

/-- The state in which an expression that started at line `line` may end, and the expression. -/
def Pending.Closes (s : Pending) (line : Nat) (e : Expr) : Prop :=
  s.afterOperand = true ∧ s.enclosing = [] ∧ e = Expr.ofItems line (flush s.output s.waiting).reverse

/-- The state behind a token that is neither a bracket nor the end of the expression. -/
def Pending.token? (s : Pending) (t : Token) : Option Pending :=
  match t.kind with
  | .number v =>
      if s.afterOperand then none else some (s.pushOperand (.number t.position.line v.toFloat))
  | .name => if s.afterOperand then none else some (s.pushOperand (.name t.position.line t.text))
  | .operator op => if s.afterOperand then some (s.pushOperator t.position.line op) else none
  | .openParen => if s.afterOperand then none else some (s.openParen t)
  | .closeParen => if s.afterOperand then s.closeParen? else none
  | _ => none

theorem closeAt_gives {finish : Position} {line : Nat} {inMatrix : Bool} {s : Pending}
    {ts rest : List Token} {n : Nat} {h : s.afterOperand = true → ts.length < n} {e : Expr} :
    (closeAt finish line inMatrix s ts h).Gives e rest ↔ s.Closes line e ∧ rest = ts := by
  unfold closeAt close
  by_cases ha : s.afterOperand = true
  · cases he : s.enclosing with
    | nil => simp [ha, he, Pending.Closes, eq_comm]
    | cons p ps => simp [ha, he, Pending.Closes]
  · simp [ha, Pending.Closes]

theorem secondOperand_gives {finish : Position} {line : Nat} {inMatrix : Bool} {s : Pending}
    {t : Token} {ts rest : List Token} {n : Nat} {h : s.afterOperand = true → (t :: ts).length < n}
    {e : Expr} :
    (secondOperand finish line inMatrix s t ts h).Gives e rest ↔
      inMatrix = true ∧ s.Closes line e ∧ rest = t :: ts := by
  unfold secondOperand
  by_cases hm : inMatrix = true
  · cases he : s.enclosing with
    | nil => simp [hm, closeAt_gives]
    | cons p ps => simp [hm, he, Pending.Closes]
  · simp [hm]

/-- At the end of the text an expression ends or fails. -/
theorem expressionFrom_nil_gives {finish : Position} {line : Nat} {inMatrix : Bool} {n : Nat}
    {s : Pending} {hn : ([] : List Token).length ≤ n}
    {ha : s.afterOperand = true → ([] : List Token).length < n} {e : Expr} {rest : List Token} :
    (expressionFrom finish line inMatrix n s [] hn ha).Gives e rest ↔
      s.Closes line e ∧ rest = [] := by
  rw [expressionFrom]
  exact closeAt_gives

/-- One step of the parser of expressions: the token in front ends the expression, changes the state,
or opens a literal that is read first. -/
theorem expressionFrom_cons_gives {finish : Position} {line : Nat} {inMatrix : Bool} {n : Nat}
    {s : Pending} {t : Token} {ts : List Token} {hn : (t :: ts).length ≤ n}
    {ha : s.afterOperand = true → (t :: ts).length < n} {e : Expr} {rest : List Token} :
    (expressionFrom finish line inMatrix n s (t :: ts) hn ha).Gives e rest ↔
      (s.Closes line e ∧ t.kind.endsExpression inMatrix = true ∧ rest = t :: ts) ∨
      (∃ s', s.token? t = some s' ∧ (expressionFrom finish line inMatrix n s' ts
        (Nat.le_of_succ_le hn) fun _ => hn).Gives e rest) ∨
      (t.kind = .openBracket ∧ s.afterOperand = false ∧ ∃ rows ts',
        (matrixBody finish ts).Gives rows ts' ∧ ∃ hn' ha',
          (expressionFrom finish line inMatrix n (s.pushOperand (.matrix t.position.line rows)) ts'
            hn' ha').Gives e rest) := by
  -- an operand is due or not: only one of the two leaves the expression a choice
  have hd : s.afterOperand = false → ¬ s.Closes line e := by
    intro hs h
    simp [h.1] at hs
  rw [expressionFrom]
  cases hk : t.kind with
  | number v | name =>
      simp only [hk, Token.Kind.endsExpression, Pending.token?, reduceCtorEq]
      cases hs : s.afterOperand <;> simp [hd, hs, secondOperand_gives, and_left_comm]
  | openBracket =>
      simp only [hk, Token.Kind.endsExpression, Pending.token?, reduceCtorEq]
      cases hs : s.afterOperand with
      | true => simp [secondOperand_gives, and_left_comm]
      | false =>
          cases hm : matrixBody finish ts with
          | error e stop => simp [hd hs]
          | ok rows ts' h =>
              simp only [hd hs, Outcome.gives_ok, Bool.false_eq_true, if_false, false_and,
                exists_false, true_and, false_or]
              constructor
              · intro he
                exact ⟨rows, ts', ⟨rfl, rfl⟩, _, _, he⟩
              · rintro ⟨_, _, ⟨rfl, rfl⟩, _, _, he⟩
                exact he
  | operator op | openParen =>
      simp only [hk, Token.Kind.endsExpression, Pending.token?, reduceCtorEq]
      cases hs : s.afterOperand <;> simp
  | closeParen =>
      simp only [hk, Token.Kind.endsExpression, Pending.token?, reduceCtorEq]
      cases hs : s.afterOperand with
      | false => simp
      | true => cases hc : s.closeParen? <;> simp
  | _ => simp [hk, Token.Kind.endsExpression, Pending.token?, closeAt_gives]

/-! ### The rows of a literal -/

/-- The state behind a token that separates cells or rows. -/
def Rows.token? (r : Rows) (t : Token) : Option Rows :=
  match t.kind with
  | .comma => if r.commaPending then none else some r.pushComma
  | .newline =>
      if r.current.isEmpty then some r
      else if r.lengthError?.isNone then some (r.nextRow true) else none
  | .semicolon => if r.lengthError?.isNone then some (r.nextRow false) else none
  | _ => none

theorem rowsFrom_nil_gives {finish : Position} {r : Rows} {rows : List (List Expr)}
    {rest : List Token} : (rowsFrom finish r []).Gives rows rest ↔ False := by
  rw [rowsFrom]
  exact Outcome.gives_error

/-- One step of the parser of rows: the token in front closes the literal, separates cells or rows, or
starts a cell. -/
theorem rowsFrom_cons_gives {finish : Position} {r : Rows} {t : Token} {ts : List Token}
    {rows : List (List Expr)} {rest : List Token} :
    (rowsFrom finish r (t :: ts)).Gives rows rest ↔
      (t.kind = .closeBracket ∧ r.close = .ok rows ∧ rest = ts) ∨
      (∃ r', r.token? t = some r' ∧ (rowsFrom finish r' ts).Gives rows rest) ∨
      (t.kind.startsCell = true ∧ ∃ e ts', (expression finish true (t :: ts)).Gives e ts' ∧
        (rowsFrom finish (r.pushCell e) ts').Gives rows rest) := by
  rw [rowsFrom]
  cases hk : t.kind with
  | closeBracket =>
      simp only [hk, Rows.token?, Token.Kind.startsCell]
      cases r.close <;> simp [eq_comm]
  | comma =>
      simp only [hk, Rows.token?, Token.Kind.startsCell]
      cases r.commaPending <;> simp
  | newline =>
      simp only [hk, Rows.token?, Token.Kind.startsCell]
      cases r.current.isEmpty <;> cases r.lengthError? <;> simp
  | semicolon =>
      simp only [hk, Rows.token?, Token.Kind.startsCell]
      cases r.lengthError? <;> simp
  | _ =>
      simp only [hk, Rows.token?, Token.Kind.startsCell, expression, positionOf_cons]
      generalize expressionFrom finish t.position.line true _ Pending.start _ _ _ = o
      cases o with
      | error e stop => simp
      | ok e ts' h => simp [and_assoc]

/-- One step of the parser of literals: the literal is empty, or a cell starts. -/
theorem matrixBody_cons_gives {finish : Position} {t : Token} {ts : List Token}
    {rows : List (List Expr)} {rest : List Token} :
    (matrixBody finish (t :: ts)).Gives rows rest ↔
      (t.kind = .closeBracket ∧ rows = [] ∧ rest = ts) ∨
      (t.kind ≠ .closeBracket ∧ t.kind ≠ .comma ∧ ∃ e ts',
        (expression finish true (t :: ts)).Gives e ts' ∧
        (rowsFrom finish (.start e) ts').Gives rows rest) := by
  obtain ⟨k, text, p⟩ := t
  rw [matrixBody.eq_def]
  cases k with
  | closeBracket => simp [eq_comm]
  | comma => simp
  | _ =>
      simp only [expression, positionOf_cons]
      generalize expressionFrom finish p.line true _ Pending.start _ _ _ = o
      cases o with
      | error e stop => simp
      | ok e ts' h => simp [and_assoc]

theorem matrixBody_nil_gives {finish : Position} {rows : List (List Expr)} {rest : List Token} :
    ¬ (matrixBody finish []).Gives rows rest := fun h => Nat.not_lt_zero _ h.length_lt

/-! ### Induction on the number of tokens -/

/-- What is true of the three parsers where no token is left, and at a token if it is true at fewer tokens, is
true at all tokens.  At the same tokens a literal and its rows come after the expressions that they start
with. -/
theorem tokens_induction {E B R : List Token → Prop} (nil : E [] ∧ B [] ∧ R [])
    (expression : ∀ t ts, (∀ ts' : List Token, ts'.length ≤ ts.length → E ts') → B ts → E (t :: ts))
    (body : ∀ t ts, E (t :: ts) → (∀ ts' : List Token, ts'.length ≤ ts.length → R ts') → B (t :: ts))
    (rows : ∀ t ts, E (t :: ts) → (∀ ts' : List Token, ts'.length ≤ ts.length → R ts') → R (t :: ts))
    (ts : List Token) : E ts ∧ B ts ∧ R ts := by
  induction hk : ts.length using Nat.strongRecOn generalizing ts with
  | _ k ih =>
      cases ts with
      | nil => exact nil
      | cons t ts =>
          have shorter : ∀ ts' : List Token, ts'.length ≤ ts.length → E ts' ∧ B ts' ∧ R ts' := fun ts' h =>
            ih ts'.length (by rw [← hk, List.length_cons]; omega) ts' rfl
          have he : E (t :: ts) :=
            expression t ts (fun ts' h => (shorter ts' h).1) (shorter ts (Nat.le_refl _)).2.1
          have hr : ∀ ts' : List Token, ts'.length ≤ ts.length → R ts' := fun ts' h => (shorter ts' h).2.2
          exact ⟨he, body t ts he hr, rows t ts he hr⟩

/-! ### What comes behind does not matter -/

/-- An expression at the tokens `ts` that ends before another token depends on nothing behind that
token. -/
def ExpressionLocal (ts : List Token) : Prop :=
  ∀ ⦃finish : Position⦄ ⦃line : Nat⦄ ⦃inMatrix : Bool⦄ ⦃n : Nat⦄ ⦃s : Pending⦄ ⦃hn : ts.length ≤ n⦄
    ⦃ha : s.afterOperand = true → ts.length < n⦄ ⦃e : Expr⦄ ⦃u : Token⦄ ⦃rest : List Token⦄,
    (expressionFrom finish line inMatrix n s ts hn ha).Gives e (u :: rest) →
      ∃ span, ts = span ++ u :: rest ∧ ∀ (finish' : Position) (n' : Nat) (rest' : List Token)
        (hn' : (span ++ u :: rest').length ≤ n')
        (ha' : s.afterOperand = true → (span ++ u :: rest').length < n'),
        (expressionFrom finish' line inMatrix n' s (span ++ u :: rest') hn' ha').Gives e (u :: rest')

/-- A literal whose bracket stands before the tokens `ts` depends on nothing behind its closing
bracket. -/
def BodyLocal (ts : List Token) : Prop :=
  ∀ ⦃finish : Position⦄ ⦃rows : List (List Expr)⦄ ⦃rest : List Token⦄,
    (matrixBody finish ts).Gives rows rest →
      ∃ body, ts = body ++ rest ∧ ∀ (finish' : Position) (rest' : List Token),
        (matrixBody finish' (body ++ rest')).Gives rows rest'

/-- The rows of a literal at the token `u` and those behind it, `ts`, depend on nothing behind the
closing bracket. -/
def RowsLocal (u : Token) (ts : List Token) : Prop :=
  ∀ ⦃finish : Position⦄ ⦃r : Rows⦄ ⦃rows : List (List Expr)⦄ ⦃rest : List Token⦄,
    (rowsFrom finish r (u :: ts)).Gives rows rest →
      ∃ body, ts = body ++ rest ∧ ∀ (finish' : Position) (rest' : List Token),
        (rowsFrom finish' r (u :: (body ++ rest'))).Gives rows rest'

theorem ExpressionLocal.nil : ExpressionLocal [] := by
  intro finish line inMatrix n s hn ha e u rest h
  simp [expressionFrom_nil_gives] at h

/-- The step of an expression: the literal, if there is one, and what is behind the token or the literal
are shorter. -/
theorem ExpressionLocal.cons {t : Token} {ts : List Token}
    (hs : ∀ ts', ts'.length ≤ ts.length → ExpressionLocal ts') (hb : BodyLocal ts) :
    ExpressionLocal (t :: ts) := by
  intro finish line inMatrix n s hn ha e u rest h
  rcases expressionFrom_cons_gives.1 h with
    ⟨hc, hk, heq⟩ | ⟨s', ht, he⟩ | ⟨hk, ho, rows, ts', hm, hn', ha', he⟩
  · cases heq
    exact ⟨[], rfl, fun _ _ _ _ _ => expressionFrom_cons_gives.2 (.inl ⟨hc, hk, rfl⟩)⟩
  · obtain ⟨span, rfl, hl⟩ := hs _ (Nat.le_refl _) he
    refine ⟨t :: span, rfl, fun finish' n' rest' hn' ha' => ?_⟩
    exact expressionFrom_cons_gives.2 (.inr (.inl ⟨s', ht, hl _ _ _ _ _⟩))
  · have hlt := hm.length_lt
    obtain ⟨body, rfl, hbody⟩ := hb hm
    obtain ⟨span, rfl, hl⟩ := hs _ (Nat.le_of_lt hlt) he
    refine ⟨t :: (body ++ span), by simp, fun finish' n' rest' hn' ha' => ?_⟩
    simp only [List.cons_append, List.append_assoc, List.length_cons, List.length_append] at hn' ⊢
    refine expressionFrom_cons_gives.2
      (.inr (.inr ⟨hk, ho, rows, _, hbody _ _, ?_, ?_, hl _ _ _ _ _⟩))
    · simp only [List.length_append, List.length_cons]
      omega
    · intro _
      simp only [List.length_append, List.length_cons]
      omega

/-- A cell and the rows behind it: what is behind the closing bracket does not matter to either. -/
theorem ExpressionLocal.cell {ts ts' : List Token} (hs : ExpressionLocal ts)
    (hr : ∀ u us, ts' = u :: us → RowsLocal u us) {finish : Position} {e : Expr} {r : Rows}
    {rows : List (List Expr)} {rest : List Token} (he : (expression finish true ts).Gives e ts')
    (h : (rowsFrom finish r ts').Gives rows rest) :
    ∃ t body, ts = t :: (body ++ rest) ∧ ∀ finish' rest', ∃ ts'',
      (expression finish' true (t :: (body ++ rest'))).Gives e ts'' ∧
      (rowsFrom finish' r ts'').Gives rows rest' := by
  cases ts' with
  | nil => exact (rowsFrom_nil_gives.1 h).elim
  | cons u us =>
      have hlt := he.length_lt
      obtain ⟨body, rfl, hbody⟩ := hr u us rfl h
      obtain ⟨span, rfl, hspan⟩ := hs he
      -- the cell has a token, so the line on which it starts is that of a token that stays
      cases span with
      | nil => exact (Nat.lt_irrefl _ hlt).elim
      | cons t span =>
          refine ⟨t, span ++ u :: body, by simp, fun finish' rest' => ⟨u :: (body ++ rest'), ?_,
            hbody finish' rest'⟩⟩
          rw [List.append_assoc]
          exact hspan _ _ _ _ _

theorem BodyLocal.of_expression {ts : List Token} (hs : ExpressionLocal ts)
    (hr : ∀ u us, (u :: us).length < ts.length → RowsLocal u us) : BodyLocal ts := by
  intro finish rows rest h
  cases ts with
  | nil => exact (matrixBody_nil_gives h).elim
  | cons t ts =>
      rcases matrixBody_cons_gives.1 h with ⟨hk, rfl, rfl⟩ | ⟨hk, hc, e, ts', he, h⟩
      · exact ⟨[t], rfl, fun _ _ => matrixBody_cons_gives.2 (.inl ⟨hk, rfl, rfl⟩)⟩
      · obtain ⟨t', body, heq, hl⟩ := hs.cell (fun u us hu => hr u us (hu ▸ he.length_lt)) he h
        cases heq
        refine ⟨t :: body, rfl, fun finish' rest' => ?_⟩
        obtain ⟨ts'', he', h'⟩ := hl finish' rest'
        exact matrixBody_cons_gives.2 (.inr ⟨hk, hc, e, ts'', he', h'⟩)

theorem RowsLocal.of_expression {t : Token} {ts : List Token} (hs : ExpressionLocal (t :: ts))
    (hr : ∀ u us, (u :: us).length < (t :: ts).length → RowsLocal u us) : RowsLocal t ts := by
  intro finish r rows rest h
  rcases rowsFrom_cons_gives.1 h with ⟨hk, hc, rfl⟩ | ⟨r', ht, h'⟩ | ⟨hk, e, ts', he, h'⟩
  · exact ⟨[], rfl, fun _ _ => rowsFrom_cons_gives.2 (.inl ⟨hk, hc, rfl⟩)⟩
  · cases ts with
    | nil => exact (rowsFrom_nil_gives.1 h').elim
    | cons u us =>
        obtain ⟨body, rfl, hbody⟩ := hr u us (Nat.lt_succ_self _) h'
        exact ⟨u :: body, rfl, fun finish' rest' =>
          rowsFrom_cons_gives.2 (.inr (.inl ⟨r', ht, hbody finish' rest'⟩))⟩
  · obtain ⟨t', body, heq, hl⟩ := hs.cell (fun u us hu => hr u us (hu ▸ he.length_lt)) he h'
    cases heq
    refine ⟨body, rfl, fun finish' rest' => ?_⟩
    obtain ⟨ts'', he', h''⟩ := hl finish' rest'
    exact rowsFrom_cons_gives.2 (.inr (.inr ⟨hk, e, ts'', he', h''⟩))

/-- All three parsers at once, by induction on the number of tokens: at the same tokens a literal and its
rows come after the expressions that they start with. -/
theorem local_of_length_le (k : Nat) :
    ∀ ts : List Token, ts.length ≤ k →
      ExpressionLocal ts ∧ BodyLocal ts ∧ ∀ u us, ts = u :: us → RowsLocal u us := by
  induction k with
  | zero =>
      intro ts h
      obtain rfl := List.eq_nil_of_length_eq_zero (Nat.le_zero.1 h)
      refine ⟨ExpressionLocal.nil, BodyLocal.of_expression ExpressionLocal.nil ?_, ?_⟩
      · intro u us h
        exact (Nat.not_lt_zero _ h).elim
      · intro u us h
        cases h
  | succ k ih =>
      intro ts h
      have hr : ∀ u us, (u :: us).length < ts.length → RowsLocal u us := fun u us hu =>
        (ih (u :: us) (by omega)).2.2 u us rfl
      have hs : ExpressionLocal ts := by
        cases ts with
        | nil => exact ExpressionLocal.nil
        | cons t ts =>
            have hk : ts.length ≤ k := Nat.le_of_succ_le_succ h
            exact ExpressionLocal.cons (fun ts' h' => (ih ts' (by omega)).1) (ih ts hk).2.1
      refine ⟨hs, BodyLocal.of_expression hs hr, ?_⟩
      rintro u us rfl
      exact RowsLocal.of_expression hs hr

/-- **An expression depends on one token more than it reads.** -/
theorem expressionFrom_local (ts : List Token) : ExpressionLocal ts :=
  (local_of_length_le _ ts (Nat.le_refl _)).1

/-- **A literal does not depend on what comes behind it.** -/
theorem matrixBody_local (ts : List Token) : BodyLocal ts :=
  (local_of_length_le _ ts (Nat.le_refl _)).2.1

/-- **An expression that ends with the text might as well end before a token** at which expressions end. -/
theorem expressionFrom_append {finish finish' : Position} {line : Nat} {inMatrix : Bool} {n n' : Nat}
    {s : Pending} {ts : List Token} {hn : ts.length ≤ n} {ha : s.afterOperand = true → ts.length < n}
    {e : Expr} {u : Token} {rest : List Token} {hn' : (ts ++ u :: rest).length ≤ n'}
    {ha' : s.afterOperand = true → (ts ++ u :: rest).length < n'}
    (h : (expressionFrom finish line inMatrix n s ts hn ha).Gives e [])
    (hu : u.kind.endsExpression inMatrix = true) :
    (expressionFrom finish' line inMatrix n' s (ts ++ u :: rest) hn' ha').Gives e (u :: rest) := by
  induction hk : ts.length using Nat.strongRecOn generalizing ts s n with
  | _ k ih =>
      cases ts with
      | nil => exact expressionFrom_cons_gives.2 (.inl ⟨(expressionFrom_nil_gives.1 h).1, hu, rfl⟩)
      | cons t ts =>
          have hshorter : ts.length < k := by rw [← hk]; exact Nat.lt_succ_self _
          refine expressionFrom_cons_gives.2 ?_
          rcases expressionFrom_cons_gives.1 h with
            ⟨-, -, hnil⟩ | ⟨s', ht, he⟩ | ⟨hopen, ho, rows, ts', hm, _, _, he⟩
          · cases hnil
          · exact .inr (.inl ⟨s', ht, ih _ hshorter he rfl⟩)
          · -- the literal is closed within the text
            have hlt := hm.length_lt
            obtain ⟨body, rfl, hbody⟩ := matrixBody_local ts hm
            have hm' := hbody finish' (ts' ++ u :: rest)
            rw [← List.append_assoc] at hm'
            have hn'' : (ts' ++ u :: rest).length < n' :=
              Nat.lt_of_lt_of_le hm'.length_lt (Nat.le_of_succ_le hn')
            exact .inr (.inr ⟨hopen, ho, rows, _, hm', Nat.le_of_lt hn'', fun _ => hn'',
              ih _ (Nat.lt_trans hlt hshorter) he rfl⟩)

/-- Tokens that are all of a literal are so before any others. -/
theorem matrixBody_append {finish : Position} {body : List Token} {rows : List (List Expr)}
    (h : (matrixBody finish body).Gives rows []) (rest : List Token) :
    (matrixBody finish (body ++ rest)).Gives rows rest := by
  obtain ⟨span, heq, hl⟩ := matrixBody_local body h
  rw [List.append_nil] at heq
  subst heq
  exact hl finish rest

/-- The tokens that a literal reads are all of a literal by themselves. -/
theorem matrixBody_split {finish : Position} {ts rest : List Token} {rows : List (List Expr)}
    (h : (matrixBody finish ts).Gives rows rest) :
    ∃ body, ts = body ++ rest ∧ (matrixBody finish body).Gives rows [] := by
  obtain ⟨body, rfl, hl⟩ := matrixBody_local ts h
  have hb := hl finish []
  rw [List.append_nil] at hb
  exact ⟨body, rfl, hb⟩

theorem matrix_cons_gives {finish : Position} {t : Token} {ts rest : List Token} {e : Expr} :
    (matrix finish (t :: ts)).Gives e rest ↔
      ∃ rows, (matrixBody finish ts).Gives rows rest ∧ .matrix t.position.line rows = e := by
  rw [matrix, Outcome.gives_widen, Outcome.gives_map]

end Parse

end MatrixCalc
