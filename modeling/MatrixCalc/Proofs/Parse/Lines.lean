/-
**Where tokens stand does not matter to parsers.**

A parser passes the lines of its tokens on, to the nodes of expressions and to errors, and decides nothing by
them.  So tokens that stand some lines further down give the same, just as many lines further down, and fail
where the others fail.  Offsets and columns do not count at all.

Main definitions:

* `MatrixCalc.Expr.down`, `MatrixCalc.Statement.down`, `MatrixCalc.ParseError.down`, `MatrixCalc.Attempt.down` —
  what stands further down;
* `MatrixCalc.Outcome.Moves` — one parser gives what another one gives, further down;
* `MatrixCalc.Parse.statementEnd?` — what ends a statement.

Main results:

* `MatrixCalc.Parse.moves` — tokens further down give the same further down;
* `MatrixCalc.Parse.statement_gives_iff` — a statement is an expression and what ends it;
* `MatrixCalc.Parse.statement_local` — and depends on nothing behind that;
* `MatrixCalc.Parse.attempts_down` — **the attempts of tokens further down**.
-/

import MatrixCalc.Proofs.Parse.Failures
import MatrixCalc.Proofs.Session.Attempts
import MatrixCalc.Proofs.Token.Seam

set_option autoImplicit false

namespace MatrixCalc

variable {b : Nat}

/-! ### What stands further down -/

namespace Expr

mutual

/-- The expression `b` lines further down. -/
def down (b : Nat) : Expr → Expr
  | name line n => name (line + b) n
  | number line x => number (line + b) x
  | matrix line rows => matrix (line + b) (downRows b rows)
  | operator line op => operator (line + b) op
  | sequence line items => sequence (line + b) (downAll b items)
  | vacant => vacant

/-- The rows of a literal `b` lines further down. -/
def downRows (b : Nat) : List (List Expr) → List (List Expr)
  | [] => []
  | row :: rows => downAll b row :: downRows b rows

/-- The items of a sequence or the cells of a row `b` lines further down. -/
def downAll (b : Nat) : List Expr → List Expr
  | [] => []
  | e :: es => down b e :: downAll b es

end

@[simp] theorem downAll_eq_map (es : List Expr) : downAll b es = es.map (down b) := by
  induction es with
  | nil => rfl
  | cons e es ih => rw [downAll, ih, List.map_cons]

@[simp] theorem downRows_eq_map (rows : List (List Expr)) :
    downRows b rows = rows.map fun row => row.map (down b) := by
  induction rows with
  | nil => rfl
  | cons row rows ih => rw [downRows, downAll_eq_map, ih, List.map_cons]

end Expr

/-- The statement `b` lines further down. -/
def Statement.down (b : Nat) (s : Statement) : Statement := ⟨s.expr.down b, s.storesAns, s.prints, s.line + b⟩

/-- The error `b` lines further down. -/
def ParseError.down (b : Nat) (e : ParseError) : ParseError :=
  ⟨e.cause, e.line.map (· + (b : Int)), e.offset.map fun _ => 0⟩

/-- The attempt `b` lines further down. -/
def Attempt.down (b : Nat) : Attempt → Attempt
  | parsed s => parsed (s.down b)
  | unparsed line e => unparsed (line + b) (e.down b)

theorem ParseError.at_down (b : Nat) (p : Position) (cause : Cause) :
    at_ (p.down b) cause = (at_ p cause).down b := by
  simp [at_, down, Position.down]

theorem Expr.isAssign_down (b : Nat) (e : Expr) : (e.down b).isAssign = e.isAssign := by
  cases e with
  | operator line op => cases op <;> simp [down, isAssign]
  | _ => simp [down, isAssign]

theorem Expr.storesAns_down (b : Nat) (e : Expr) : (e.down b).storesAns = e.storesAns := by
  cases e with
  | sequence line items =>
      simp [down, storesAns, assigns, List.any_map, Function.comp_def, isAssign_down]
  | _ => simp [down, storesAns]

@[simp] theorem Token.kind_down (b : Nat) (t : Token) : (t.down b).kind = t.kind := rfl

@[simp] theorem Token.text_down (b : Nat) (t : Token) : (t.down b).text = t.text := rfl

@[simp] theorem Token.position_down (b : Nat) (t : Token) : (t.down b).position = t.position.down b := rfl

@[simp] theorem Token.describe_down (b : Nat) (t : Token) : (t.down b).describe = t.describe := rfl

@[simp] theorem Position.line_down (b : Nat) (p : Position) : (p.down b).line = p.line + b := rfl

theorem positionOf_down (b : Nat) (finish : Position) (ts : List Token) :
    positionOf (finish.down b) (ts.map (Token.down b)) = (positionOf finish ts).down b := by
  cases ts <;> rfl

namespace Parse

/-! ### States further down -/

/-- The waiting operator `b` lines further down. -/
def Waiting.down (b : Nat) (w : Waiting) : Waiting := (w.1 + b, w.2)

/-- The state of an expression `b` lines further down. -/
def Pending.down (b : Nat) (s : Pending) : Pending :=
  ⟨s.output.map (Expr.down b), s.waiting.map (Waiting.down b),
    s.enclosing.map fun x => (x.1.down b, x.2.map (Waiting.down b)), s.afterOperand⟩

/-- The state of a literal `b` lines further down. -/
def Rows.down (b : Nat) (r : Rows) : Rows :=
  ⟨r.finished.map fun row => row.map (Expr.down b), r.current.map (Expr.down b), r.commaPending,
    r.afterNewline⟩

theorem flush_down (output : List Expr) (ws : List Waiting) :
    flush (output.map (Expr.down b)) (ws.map (Waiting.down b)) = (flush output ws).map (Expr.down b) := by
  have hexpr : Waiting.toExpr ∘ Waiting.down b = Expr.down b ∘ Waiting.toExpr := by
    funext w
    simp [Waiting.toExpr, Waiting.down, Expr.down]
  simp [flush, hexpr]

theorem ofItems_down (line : Int) (items : List Expr) :
    Expr.ofItems (line + b) (items.map (Expr.down b)) = (Expr.ofItems line items).down b := by
  match items with
  | [e] => rfl
  | [] | _ :: _ :: _ => simp [Expr.ofItems, Expr.down]

namespace Pending

theorem pushOperand_down (s : Pending) (e : Expr) :
    (s.down b).pushOperand (e.down b) = (s.pushOperand e).down b := rfl

theorem pushOperator_down (s : Pending) (line : Nat) (op : Operator) :
    (s.down b).pushOperator (line + b) op = (s.pushOperator line op).down b := by
  have hfirst : (fun w : Waiting => w.2.appliesBefore op) ∘ Waiting.down b =
      fun w => w.2.appliesBefore op := rfl
  simp only [pushOperator, down, List.takeWhile_map, List.dropWhile_map, hfirst, flush_down, List.map_cons]
  rfl

theorem openParen_down (s : Pending) (t : Token) :
    (s.down b).openParen (t.down b) = (s.openParen t).down b := rfl

theorem closeParen?_down (s : Pending) : (s.down b).closeParen? = s.closeParen?.map (down b) := by
  cases henclosing : s.enclosing with
  | nil => simp [closeParen?, down, henclosing]
  | cons x xs => simp [closeParen?, down, henclosing, flush_down]

/-- What a token does does not depend on where it stands. -/
theorem token?_down (s : Pending) (t : Token) :
    (s.down b).token? (t.down b) = (s.token? t).map (down b) := by
  have hafter : (s.down b).afterOperand = s.afterOperand := rfl
  cases hk : t.kind with
  | number v | name =>
      simp only [token?, Token.kind_down, hk, hafter]
      split
      · rfl
      · simp [← pushOperand_down, Expr.down]
  | operator op =>
      simp only [token?, Token.kind_down, hk, hafter]
      split
      · simp [← pushOperator_down]
      · rfl
  | openParen =>
      simp only [token?, Token.kind_down, hk, hafter]
      split
      · rfl
      · rw [openParen_down]
        rfl
  | closeParen =>
      simp only [token?, Token.kind_down, hk, hafter, closeParen?_down]
      split <;> rfl
  | _ => simp [token?, hk]

theorem wrongToken?_down (inMatrix : Bool) (s : Pending) (t : Token) :
    (s.down b).wrongToken? inMatrix (t.down b) = (s.wrongToken? inMatrix t).map (ParseError.down b) := by
  have hafter : (s.down b).afterOperand = s.afterOperand := rfl
  have hempty : (s.down b).enclosing.isEmpty = s.enclosing.isEmpty := List.isEmpty_map
  cases hk : t.kind with
  | number v | name | openBracket | operator op | openParen =>
      simp only [wrongToken?, Token.kind_down, hk, hafter, hempty]
      split <;>
        simp [operandAfterOperand, noLeftOperand, parenAfterOperand, ParseError.at_down]
  | closeParen =>
      simp only [wrongToken?, Token.kind_down, hk, hafter, hempty]
      split
      · split <;> simp [ParseError.at_down]
      · simp [closeWithoutOperand, ParseError.at_down]
  | _ => simp [wrongToken?, hk]

theorem Closes.down {s : Pending} {line : Nat} {e : Expr} (h : s.Closes line e) :
    (s.down b).Closes (line + b) (e.down b) := by
  obtain ⟨hafter, henclosing, rfl⟩ := h
  refine ⟨hafter, by simp [Pending.down, henclosing], ?_⟩
  rw [← ofItems_down]
  simp [Pending.down, flush_down]

end Pending

theorem missingOperand_down (finish : Position) (inMatrix : Bool) (s : Pending) (ts : List Token) :
    missingOperand (finish.down b) inMatrix (s.down b) (ts.map (Token.down b)) =
      (missingOperand finish inMatrix s ts).down b := by
  have hstart : (s.down b).isStart = s.isStart := by
    simp [Pending.isStart, Pending.down]
  cases ts with
  | nil => simp [missingOperand, ParseError.at_down]
  | cons t ts =>
      simp only [missingOperand, List.map_cons, Token.position_down, Token.kind_down, Token.describe_down,
        hstart, ParseError.at_down]
      rfl

theorem close_down {finish : Position} {line : Nat} {inMatrix : Bool} {s : Pending} {ts : List Token}
    {e : ParseError} (h : close finish line inMatrix s ts = .error e) :
    close (finish.down b) (line + b) inMatrix (s.down b) (ts.map (Token.down b)) = .error (e.down b) := by
  have hafter : (s.down b).afterOperand = s.afterOperand := rfl
  unfold close at h ⊢
  rw [hafter]
  split at h
  · next ha =>
      rw [if_pos ha]
      cases henclosing : s.enclosing with
      | nil => simp [henclosing] at h
      | cons x xs =>
          simp only [henclosing] at h
          obtain rfl := Except.error.inj h
          simp [Pending.down, henclosing, ParseError.at_down]
  · next ha =>
      obtain rfl := Except.error.inj h
      rw [if_neg ha, missingOperand_down]

namespace Rows

theorem lengthError?_down (r : Rows) : (r.down b).lengthError? = r.lengthError? := by
  cases hfinished : r.finished <;> simp [lengthError?, down, hfinished]

theorem nextRow_down (r : Rows) (newline : Bool) :
    (r.down b).nextRow newline = (r.nextRow newline).down b := by
  simp [nextRow, down]

theorem close_down (r : Rows) :
    (r.down b).close = r.close.map fun rows => rows.map fun row => row.map (Expr.down b) := by
  have hcondition : ((r.down b).afterNewline && (r.down b).current.isEmpty) =
      (r.afterNewline && r.current.isEmpty) := by simp [down]
  simp only [close, hcondition, lengthError?_down]
  split
  · simp [down, Except.map]
  · cases r.lengthError? with
    | some e => rfl
    | none => simp [all, down, Except.map]

theorem token?_down (r : Rows) (t : Token) : (r.down b).token? (t.down b) = (r.token? t).map (down b) := by
  have hcomma : (r.down b).commaPending = r.commaPending := rfl
  have hempty : (r.down b).current.isEmpty = r.current.isEmpty := by simp [down]
  cases hk : t.kind with
  | comma =>
      simp only [token?, Token.kind_down, hk, hcomma]
      split <;> rfl
  | newline =>
      simp only [token?, Token.kind_down, hk, hempty, lengthError?_down, nextRow_down]
      split
      · rfl
      · split <;> rfl
  | semicolon =>
      simp only [token?, Token.kind_down, hk, lengthError?_down, nextRow_down]
      split <;> rfl
  | _ => simp [token?, hk]

theorem wrongToken?_down (r : Rows) (t : Token) :
    (r.down b).wrongToken? (t.down b) = (r.wrongToken? t).map (ParseError.down b) := by
  have hcomma : (r.down b).commaPending = r.commaPending := rfl
  have hempty : (r.down b).current.isEmpty = r.current.isEmpty := by simp [down]
  cases hk : t.kind with
  | closeBracket =>
      simp only [wrongToken?, Token.kind_down, hk, close_down]
      cases r.close <;> simp [Except.map, ParseError.at_down]
  | comma =>
      simp only [wrongToken?, Token.kind_down, hk, hcomma]
      split <;> simp [ParseError.at_down]
  | newline =>
      simp only [wrongToken?, Token.kind_down, hk, hempty, lengthError?_down]
      split
      · rfl
      · cases r.lengthError? <;> simp [ParseError.at_down]
  | semicolon =>
      simp only [wrongToken?, Token.kind_down, hk, lengthError?_down]
      cases r.lengthError? <;> simp [ParseError.at_down]
  | _ => simp [wrongToken?, hk]

end Rows

end Parse

/-! ### Parsers further down -/

/-- The second parser gives and fails with what the first one does, `b` lines further down. -/
def Outcome.Moves {α : Type} {n m : Nat} (b : Nat) (f : α → α) (o : Outcome α n) (o' : Outcome α m) : Prop :=
  (∀ a rest, o.Gives a rest → o'.Gives (f a) (rest.map (Token.down b))) ∧
    ∀ e stop, o.Fails e stop → o'.Fails (e.down b) (stop.map (Token.down b))

namespace Parse

/-- Expressions move with their tokens. -/
def ExpressionMoves (ts : List Token) : Prop :=
  ∀ ⦃b : Nat⦄ ⦃finish : Position⦄ ⦃line : Nat⦄ ⦃inMatrix : Bool⦄ ⦃n n' : Nat⦄ ⦃s : Pending⦄
    ⦃hn : ts.length ≤ n⦄ ⦃ha : s.afterOperand = true → ts.length < n⦄
    ⦃hn' : (ts.map (Token.down b)).length ≤ n'⦄
    ⦃ha' : (s.down b).afterOperand = true → (ts.map (Token.down b)).length < n'⦄,
    (expressionFrom finish line inMatrix n s ts hn ha).Moves b (Expr.down b)
      (expressionFrom (finish.down b) (line + b) inMatrix n' (s.down b) (ts.map (Token.down b)) hn' ha')

/-- Literals move with their tokens. -/
def BodyMoves (ts : List Token) : Prop :=
  ∀ ⦃b : Nat⦄ ⦃finish : Position⦄, (matrixBody finish ts).Moves b (Expr.downRows b)
    (matrixBody (finish.down b) (ts.map (Token.down b)))

/-- The rows of literals move with their tokens. -/
def RowsMove (ts : List Token) : Prop :=
  ∀ ⦃b : Nat⦄ ⦃finish : Position⦄ ⦃r : Rows⦄, (rowsFrom finish r ts).Moves b (Expr.downRows b)
    (rowsFrom (finish.down b) (r.down b) (ts.map (Token.down b)))

theorem ExpressionMoves.nil : ExpressionMoves [] := by
  intro b finish line inMatrix n n' s hn ha hn' ha'
  constructor
  · intro e rest h
    obtain ⟨hcloses, rfl⟩ := expressionFrom_nil_gives.1 h
    exact expressionFrom_nil_gives.2 ⟨hcloses.down, rfl⟩
  · intro e stop h
    obtain ⟨hclose, rfl⟩ := expressionFrom_nil_fails.1 h
    exact expressionFrom_nil_fails.2 ⟨close_down hclose, rfl⟩

/-- The step of an expression: each of the ways in which it goes on or ends is one for the moved tokens. -/
theorem ExpressionMoves.cons {t : Token} {ts : List Token}
    (hs : ∀ ts', ts'.length ≤ ts.length → ExpressionMoves ts') (hb : BodyMoves ts) :
    ExpressionMoves (t :: ts) := by
  intro b finish line inMatrix n n' s hn ha hn' ha'
  have htail := hs ts (Nat.le_refl _)
  have htoken : ∀ {s'}, s.token? t = some s' → (s.down b).token? (t.down b) = some (s'.down b) := by
    intro s' ht
    rw [Pending.token?_down, ht]
    rfl
  -- what is behind a literal is shorter for the moved tokens too
  have hshorter : ∀ {ts' : List Token}, ts'.length < ts.length → (ts'.map (Token.down b)).length < n' := by
    intro ts' hlt
    rw [List.length_map] at hn' ⊢
    exact Nat.lt_of_lt_of_le hlt (Nat.le_of_succ_le hn')
  constructor
  · intro e rest h
    refine expressionFrom_cons_gives.2 ?_
    rcases expressionFrom_cons_gives.1 h with
      ⟨hcloses, hk, rfl⟩ | ⟨s', ht, he⟩ | ⟨hk, ho, rows, ts', hm, _, _, he⟩
    · exact .inl ⟨hcloses.down, hk, rfl⟩
    · exact .inr (.inl ⟨_, htoken ht, htail.1 e rest he⟩)
    · have hlt := hshorter hm.length_lt
      exact .inr (.inr ⟨hk, ho, _, _, hb.1 rows ts' hm, Nat.le_of_lt hlt, fun _ => hlt,
        (hs ts' (Nat.le_of_lt hm.length_lt)).1 e rest he⟩)
  · intro e stop h
    refine expressionFrom_cons_fails.2 ?_
    rcases expressionFrom_cons_fails.1 h with ⟨hw, rfl⟩ | ⟨hk, hclose, rfl⟩ | ⟨s', ht, he⟩ |
      ⟨hk, ho, hm | ⟨rows, ts', hm, _, _, he⟩⟩
    · refine .inl ⟨?_, rfl⟩
      rw [Pending.wrongToken?_down, hw]
      rfl
    · exact .inr (.inl ⟨hk, close_down hclose, rfl⟩)
    · exact .inr (.inr (.inl ⟨_, htoken ht, htail.2 e stop he⟩))
    · exact .inr (.inr (.inr ⟨hk, ho, .inl (hb.2 e stop hm)⟩))
    · have hlt := hshorter hm.length_lt
      exact .inr (.inr (.inr ⟨hk, ho, .inr ⟨_, _, hb.1 rows ts' hm, Nat.le_of_lt hlt, fun _ => hlt,
        (hs ts' (Nat.le_of_lt hm.length_lt)).2 e stop he⟩⟩))

/-- A whole expression moves with its tokens. -/
theorem ExpressionMoves.expression {ts : List Token} (hs : ExpressionMoves ts) (b : Nat) (finish : Position)
    (inMatrix : Bool) : (Parse.expression finish inMatrix ts).Moves b (Expr.down b)
      (Parse.expression (finish.down b) inMatrix (ts.map (Token.down b))) := by
  unfold Parse.expression
  rw [positionOf_down]
  exact @hs _ _ _ _ _ _ .start _ _ _ _

theorem RowsMove.nil : RowsMove [] := by
  intro b finish r
  constructor
  · intro rows rest h
    exact (rowsFrom_nil_gives.1 h).elim
  · intro e stop h
    obtain ⟨rfl, rfl⟩ := rowsFrom_nil_fails.1 h
    exact rowsFrom_nil_fails.2 ⟨ParseError.at_down _ _ _, rfl⟩

theorem RowsMove.cons {t : Token} {ts : List Token} (hs : ExpressionMoves (t :: ts))
    (hr : ∀ ts', ts'.length ≤ ts.length → RowsMove ts') : RowsMove (t :: ts) := by
  intro b finish r
  have hcell := hs.expression b finish true
  have htoken : ∀ {r'}, r.token? t = some r' → (r.down b).token? (t.down b) = some (r'.down b) := by
    intro r' ht
    rw [Rows.token?_down, ht]
    rfl
  constructor
  · intro rows rest h
    refine rowsFrom_cons_gives.2 ?_
    rcases rowsFrom_cons_gives.1 h with ⟨hk, hclose, rfl⟩ | ⟨r', ht, h'⟩ | ⟨hk, e, ts', he, h'⟩
    · refine .inl ⟨hk, ?_, rfl⟩
      rw [Rows.close_down, hclose, Expr.downRows_eq_map]
      rfl
    · exact .inr (.inl ⟨_, htoken ht, (hr ts (Nat.le_refl _)).1 rows rest h'⟩)
    · have hlength : ts'.length ≤ ts.length := Nat.le_of_lt_succ he.length_lt
      exact .inr (.inr ⟨hk, _, _, hcell.1 e ts' he, (hr ts' hlength).1 rows rest h'⟩)
  · intro e stop h
    refine rowsFrom_cons_fails.2 ?_
    rcases rowsFrom_cons_fails.1 h with ⟨hw, rfl⟩ | ⟨r', ht, h'⟩ | ⟨hk, he | ⟨x, ts', he, h'⟩⟩
    · refine .inl ⟨?_, rfl⟩
      rw [Rows.wrongToken?_down, hw]
      rfl
    · exact .inr (.inl ⟨_, htoken ht, (hr ts (Nat.le_refl _)).2 e stop h'⟩)
    · exact .inr (.inr ⟨hk, .inl (hcell.2 e stop he)⟩)
    · have hlength : ts'.length ≤ ts.length := Nat.le_of_lt_succ he.length_lt
      exact .inr (.inr ⟨hk, .inr ⟨_, _, hcell.1 x ts' he, (hr ts' hlength).2 e stop h'⟩⟩)

theorem BodyMoves.nil : BodyMoves [] := by
  intro b finish
  constructor
  · intro rows rest h
    exact (matrixBody_nil_gives h).elim
  · intro e stop h
    obtain ⟨rfl, rfl⟩ := matrixBody_nil_fails.1 h
    exact matrixBody_nil_fails.2 ⟨ParseError.at_down _ _ _, rfl⟩

theorem BodyMoves.cons {t : Token} {ts : List Token} (hs : ExpressionMoves (t :: ts))
    (hr : ∀ ts', ts'.length ≤ ts.length → RowsMove ts') : BodyMoves (t :: ts) := by
  intro b finish
  have hcell := hs.expression b finish true
  constructor
  · intro rows rest h
    refine matrixBody_cons_gives.2 ?_
    rcases matrixBody_cons_gives.1 h with ⟨hk, rfl, rfl⟩ | ⟨hclose, hcomma, e, ts', he, h'⟩
    · exact .inl ⟨hk, rfl, rfl⟩
    · have hlength : ts'.length ≤ ts.length := Nat.le_of_lt_succ he.length_lt
      exact .inr ⟨hclose, hcomma, _, _, hcell.1 e ts' he, (hr ts' hlength).1 rows rest h'⟩
  · intro e stop h
    refine matrixBody_cons_fails.2 ?_
    rcases matrixBody_cons_fails.1 h with ⟨hk, rfl, rfl⟩ | ⟨hclose, hcomma, he | ⟨x, ts', he, h'⟩⟩
    · exact .inl ⟨hk, ParseError.at_down _ _ _, rfl⟩
    · exact .inr ⟨hclose, hcomma, .inl (hcell.2 e stop he)⟩
    · have hlength : ts'.length ≤ ts.length := Nat.le_of_lt_succ he.length_lt
      exact .inr ⟨hclose, hcomma, .inr ⟨_, _, hcell.1 x ts' he, (hr ts' hlength).2 e stop h'⟩⟩

/-- **Tokens further down give the same further down**, by induction on their number. -/
theorem moves (ts : List Token) : ExpressionMoves ts ∧ BodyMoves ts ∧ RowsMove ts :=
  tokens_induction ⟨.nil, .nil, .nil⟩ (fun _ _ => .cons) (fun _ _ => .cons) (fun _ _ => .cons) ts

/-! ### Statements -/

/-- What ends a statement at the tokens behind its expression: whether the value is printed then, and the
tokens that are left. -/
def statementEnd? : List Token → Option (Bool × List Token)
  | [] => some (true, [])
  | t :: ts =>
      match t.kind with
      | .newline => some (true, ts)
      | .semicolon => some (false, ts)
      | _ => none

/-- **A statement is an expression and what ends it.** -/
theorem statement_gives_iff {finish : Position} {ts rest : List Token} {s : Statement} :
    (statement finish ts).Gives s rest ↔ ∃ e back prints, (expression finish false ts).Gives e back ∧
      statementEnd? back = some (prints, rest) ∧ toStatement e prints (positionOf finish ts).line = s := by
  unfold statement
  cases hx : expression finish false ts with
  | error e stop => simp
  | ok e back hlt =>
      have hgives : ∀ {P : Expr → List Token → Prop},
          (∃ e' back', (Outcome.ok e back hlt).Gives e' back' ∧ P e' back') ↔ P e back := by
        intro P
        constructor
        · rintro ⟨_, _, h, hP⟩
          obtain ⟨rfl, rfl⟩ := Outcome.gives_ok.1 h
          exact hP
        · exact fun hP => ⟨e, back, Outcome.gives_ok.2 ⟨rfl, rfl⟩, hP⟩
      simp only [exists_and_left, hgives]
      cases back with
      | nil => simp [statementEnd?, and_comm, eq_comm]
      | cons t back => cases hk : t.kind <;> simp [statementEnd?, hk, and_comm, eq_comm]

/-- **A statement depends on nothing behind the separator that ends it**, unless it ends with the text. -/
theorem statement_local {finish : Position} {ts rest : List Token} {s : Statement}
    (h : (statement finish ts).Gives s rest) :
    (rest = [] ∧ ∃ e, (expression finish false ts).Gives e [] ∧
      toStatement e true (positionOf finish ts).line = s) ∨
    ∃ span u, ts = span ++ u :: rest ∧ u.kind.isSeparator = true ∧ ∀ finish' other,
      (statement finish' (span ++ u :: other)).Gives s other := by
  obtain ⟨e, back, prints, he, hend, rfl⟩ := statement_gives_iff.1 h
  cases back with
  | nil =>
      obtain ⟨rfl, rfl⟩ : true = prints ∧ [] = rest := by simpa [statementEnd?] using hend
      exact .inl ⟨rfl, e, he, rfl⟩
  | cons u back =>
      obtain ⟨span, rfl, hlocal⟩ := expressionFrom_local _ he
      -- the expression has a token, so the line of the statement is that of a token that stays
      cases span with
      | nil => exact absurd he.length_lt (Nat.lt_irrefl _)
      | cons t span =>
          obtain ⟨hseparator, rfl, hend'⟩ : u.kind.isSeparator = true ∧ back = rest ∧
              ∀ other, statementEnd? (u :: other) = some (prints, other) := by
            cases hk : u.kind <;> simp [statementEnd?, hk] at hend ⊢ <;> simp [hend, Token.Kind.isSeparator]
          refine .inr ⟨t :: span, u, rfl, hseparator, fun finish' other => ?_⟩
          refine statement_gives_iff.2 ⟨e, u :: other, prints, ?_, hend' other, rfl⟩
          exact hlocal finish' _ other (Nat.le_refl _) (by intro h; cases h)

theorem statementEnd?_down (b : Nat) (ts : List Token) : statementEnd? (ts.map (Token.down b)) =
    (statementEnd? ts).map fun x => (x.1, x.2.map (Token.down b)) := by
  cases ts with
  | nil => rfl
  | cons t ts =>
      simp only [List.map_cons, statementEnd?, Token.kind_down]
      cases t.kind <;> rfl

theorem toStatement_down (b : Nat) (e : Expr) (prints : Bool) (line : Nat) :
    toStatement (e.down b) prints (line + b : Nat) = (toStatement e prints line).down b := by
  simp [toStatement, Statement.down, Expr.storesAns_down]

/-- **Statements move with their tokens.** -/
theorem statement_moves (b : Nat) (finish : Position) (ts : List Token) :
    (statement finish ts).Moves b (Statement.down b)
      (statement (finish.down b) (ts.map (Token.down b))) := by
  have hmoves := (moves ts).1.expression b finish false
  constructor
  · intro s rest h
    obtain ⟨e, back, prints, he, hend, rfl⟩ := statement_gives_iff.1 h
    refine statement_gives_iff.2 ⟨_, _, prints, hmoves.1 e back he, ?_, ?_⟩
    · rw [statementEnd?_down, hend]
      rfl
    · rw [positionOf_down, Position.line_down, toStatement_down]
  · intro e stop h
    refine statement_fails_iff.2 ?_
    rcases statement_fails_iff.1 h with hx | ⟨x, t, back, hx, hk, rfl, rfl⟩
    · exact .inl (hmoves.2 e stop hx)
    · exact .inr ⟨_, t.down b, _, hmoves.1 x _ hx, hk, ParseError.at_down _ _ _, rfl⟩

/-! ### Attempts -/

theorem skipSeparators_down (b : Nat) (ts : List Token) :
    skipSeparators (ts.map (Token.down b)) = (skipSeparators ts).map (Token.down b) := by
  rw [skipSeparators, List.dropWhile_map]
  rfl

theorem recoverFrom_down (b d : Nat) (ts : List Token) : recoverFrom d (ts.map (Token.down b)) =
    ((recoverFrom d ts).1.map (Token.down b), (recoverFrom d ts).2.map (Token.down b)) := by
  induction ts generalizing d with
  | nil => rfl
  | cons t ts ih =>
      simp only [List.map_cons, recoverFrom, Token.kind_down, ih]
      split <;> rfl

/-- **The attempts of tokens further down** are the same attempts further down. -/
theorem attempts_down (b : Nat) (finish : Position) (ts : List Token) :
    attempts (finish.down b) (ts.map (Token.down b)) = (attempts finish ts).map (Attempt.down b) := by
  induction ts using attempts.induct finish with
  | case1 ts hs =>
      rw [attempts_of_nil hs, attempts_of_nil (by rw [skipSeparators_down, hs]; rfl)]
      rfl
  | case2 ts t rest hs e stop he _ ih =>
      have hfails : (statement finish (t :: rest)).Fails e stop := by simp [he]
      have hdown : skipSeparators (ts.map (Token.down b)) = t.down b :: rest.map (Token.down b) := by
        rw [skipSeparators_down, hs, List.map_cons]
      have hrecover : (recover (t.down b :: rest.map (Token.down b))).2 =
          (recover (t :: rest)).2.map (Token.down b) := by
        rw [← List.map_cons, recover, recoverFrom_down]
        rfl
      rw [attempts_of_error hs he,
        attempts_of_error hdown ((statement_moves b finish (t :: rest)).2 e stop hfails).eq_error, hrecover,
        ih, List.map_cons, Attempt.down, Token.position_down, Position.line_down, Int.natCast_add]
  | case3 ts t rest hs s rest' hlt he _ ih =>
      have hgives : (statement finish (t :: rest)).Gives s rest' := by simp [he]
      have hdown : skipSeparators (ts.map (Token.down b)) = t.down b :: rest.map (Token.down b) := by
        rw [skipSeparators_down, hs, List.map_cons]
      obtain ⟨hlt', hs'⟩ := ((statement_moves b finish (t :: rest)).1 s rest' hgives).exists_eq_ok
      rw [attempts_of_ok hs he, attempts_of_ok hdown hs', ih, List.map_cons, Attempt.down]

/-- Tokens that are the same further down have the same attempts further down. -/
theorem map_attempts_eq_of_down_eq {b b' : Nat} {ts ts' : Tokens} (h : ts.down b = ts'.down b') :
    (attempts ts.finish ts.list).map (Attempt.down b) =
      (attempts ts'.finish ts'.list).map (Attempt.down b') := by
  obtain ⟨hlist, hfinish⟩ := Tokens.mk.inj h
  rw [← attempts_down, ← attempts_down, hlist, hfinish]

end Parse

end MatrixCalc
