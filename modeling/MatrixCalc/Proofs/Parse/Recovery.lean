/-
**Recovery ends behind all that a failed statement has read.**

After an error the tokens of the failed statement are passed over once more, by a scan that counts square
brackets and knows nothing else of expressions and literals.  The parser has its own way to tell separators
of rows from ends of statements: it reads literals by recursion.  The two agree on every token that the
parser has read.  At each of them the brackets that are open for the scan are the literals that the parser
is in, and so the scan stops nowhere before the token at which the parser did.

Main definitions:

* `MatrixCalc.Parse.Leads` — the scan comes from some tokens to others;
* `MatrixCalc.Parse.bracketDepth`, `MatrixCalc.Parse.IsBoundary` — how many brackets are open, and where a
  statement may end;
* `MatrixCalc.ParseError.ShowsAt`, `MatrixCalc.ParseError.Within` — where an error shows.

Main results:

* `MatrixCalc.Parse.scans` — the scan follows the parsers, whether they succeed or fail;
* `MatrixCalc.Parse.recoverFrom_boundary` — the scan ends at the first boundary.
-/

import Mathlib
import MatrixCalc.Parse.Cursor
import MatrixCalc.Proofs.Parse.Failures
import MatrixCalc.Proofs.Parse.Nesting

set_option autoImplicit false

namespace MatrixCalc

/-! ### Where errors show -/

namespace ParseError

/-- An error shows at a place. -/
def ShowsAt (e : ParseError) (p : Position) : Prop :=
  e.line = some (p.line : Int) ∧ e.offset = some (p.offset : Int)

theorem showsAt_at (p : Position) (cause : Cause) : (at_ p cause).ShowsAt p := ⟨rfl, rfl⟩

/-- An error shows at one of the tokens `ts`, at none behind the first of the tokens `stop` that they end
with; or at the end of the text, if nothing is left there. -/
def Within (e : ParseError) (finish : Position) (ts stop : List Token) : Prop :=
  ∃ front back, ts = front ++ back ∧ stop.length ≤ back.length ∧ e.ShowsAt (positionOf finish back)

theorem within_at (finish : Position) (ts : List Token) (cause : Cause) :
    (at_ (positionOf finish ts) cause).Within finish ts ts :=
  ⟨[], ts, rfl, Nat.le_refl _, showsAt_at _ _⟩

theorem Within.append {e : ParseError} {finish : Position} {ts stop : List Token}
    (h : e.Within finish ts stop) (before : List Token) : e.Within finish (before ++ ts) stop := by
  obtain ⟨front, back, rfl, hlength, hshows⟩ := h
  exact ⟨before ++ front, back, by rw [List.append_assoc], hlength, hshows⟩

end ParseError

namespace Parse

variable {finish : Position}

/-! ### The scan -/

/-- The scan comes from the tokens `ts` at the depth `d` to the tokens `rest` at the depth `d'`. -/
inductive Leads : Nat → List Token → Nat → List Token → Prop where
  | refl (d : Nat) (ts : List Token) : Leads d ts d ts
  | step {d d' : Nat} {t : Token} {ts rest : List Token}
      (inside : d = 0 → t.kind.isSeparator = false) (h : Leads (depthAfter d t.kind) ts d' rest) :
      Leads d (t :: ts) d' rest

namespace Leads

variable {d d' d'' : Nat} {ts ts' rest : List Token}

theorem trans (h : Leads d ts d' ts') (h' : Leads d' ts' d'' rest) : Leads d ts d'' rest := by
  induction h with
  | refl d ts => exact h'
  | step inside _ ih => exact .step inside (ih h')

theorem exists_append (h : Leads d ts d' rest) : ∃ span, ts = span ++ rest := by
  induction h with
  | refl d ts => exact ⟨[], rfl⟩
  | @step _ _ t _ _ _ _ ih =>
      obtain ⟨span, rfl⟩ := ih
      exact ⟨t :: span, rfl⟩

/-- Recovery does not end before tokens to which the scan comes. -/
theorem length_le (h : Leads d ts d' rest) :
    ts.length ≤ (recoverFrom d ts).1.length + rest.length := by
  induction h with
  | refl d ts => exact Nat.le_add_left _ _
  | @step d d' t ts rest inside _ ih =>
      have hgo : ¬ (d = 0 ∧ t.kind.isSeparator = true) := by
        rintro ⟨hd, ht⟩
        rw [inside hd] at ht
        cases ht
      rw [recoverFrom, if_neg hgo, List.length_cons, List.length_cons]
      omega

end Leads

/-! ### What the parsers read -/

/-- Where an expression fails: the scan comes to the tokens at which the parser stops, and the error shows
at a parenthesis that was open before or at a token that has been read. -/
structure ExpressionStops (finish : Position) (s : Pending) (d : Nat) (ts : List Token) (e : ParseError)
    (stop : List Token) : Prop where
  leads : ∃ d', Leads d ts d' stop
  shows : (∃ p ∈ s.enclosing, e.ShowsAt p.1.position) ∨ e.Within finish ts stop

/-- Where a literal fails. -/
structure LiteralStops (finish : Position) (d : Nat) (ts : List Token) (e : ParseError)
    (stop : List Token) : Prop where
  leads : ∃ d', Leads d ts d' stop
  within : e.Within finish ts stop

/-- The scan follows the parser of expressions: as many brackets are open behind an expression as before. -/
def ExpressionScans (ts : List Token) : Prop :=
  ∀ ⦃finish : Position⦄ ⦃line : Nat⦄ ⦃inMatrix : Bool⦄ ⦃n : Nat⦄ ⦃s : Pending⦄ ⦃hn : ts.length ≤ n⦄
    ⦃ha : s.afterOperand = true → ts.length < n⦄ ⦃d : Nat⦄,
    (∀ e rest, (expressionFrom finish line inMatrix n s ts hn ha).Gives e rest → Leads d ts d rest) ∧
    ∀ e stop, (expressionFrom finish line inMatrix n s ts hn ha).Fails e stop →
      ExpressionStops finish s d ts e stop

/-- The scan follows the parser of literals, which closes a bracket. -/
def BodyScans (ts : List Token) : Prop :=
  ∀ ⦃finish : Position⦄ (d : Nat),
    (∀ rows rest, (matrixBody finish ts).Gives rows rest → Leads (d + 1) ts d rest) ∧
    ∀ e stop, (matrixBody finish ts).Fails e stop → LiteralStops finish (d + 1) ts e stop

/-- The scan follows the parser of rows, which closes a bracket. -/
def RowsScan (ts : List Token) : Prop :=
  ∀ ⦃finish : Position⦄ ⦃r : Rows⦄ (d : Nat),
    (∀ rows rest, (rowsFrom finish r ts).Gives rows rest → Leads (d + 1) ts d rest) ∧
    ∀ e stop, (rowsFrom finish r ts).Fails e stop → LiteralStops finish (d + 1) ts e stop

/-- An expression that may not end before some tokens fails there, or at an open parenthesis. -/
theorem shows_of_close {line : Nat} {inMatrix : Bool} {s : Pending} {ts : List Token} {e : ParseError}
    (h : close finish line inMatrix s ts = .error e) :
    (∃ p ∈ s.enclosing, e.ShowsAt p.1.position) ∨ e.Within finish ts ts := by
  unfold close at h
  split at h
  · split at h
    · next p ps henclosing =>
        cases h
        exact .inl ⟨_, by rw [henclosing]; exact List.mem_cons_self, ParseError.showsAt_at _ _⟩
    · cases h
  · obtain rfl := Except.error.inj h
    refine .inr ?_
    cases ts with
    | nil => exact ParseError.within_at finish [] _
    | cons t ts => exact ParseError.within_at finish (t :: ts) _

/-- A wrong token of an expression is where the error shows. -/
theorem Pending.showsAt_of_wrongToken? {inMatrix : Bool} {s : Pending} {t : Token} {e : ParseError}
    (h : s.wrongToken? inMatrix t = some e) : e.ShowsAt t.position := by
  have showsAt : ∀ cause, ParseError.at_ t.position cause = e → e.ShowsAt t.position := by
    rintro cause rfl
    exact ParseError.showsAt_at _ _
  cases hk : t.kind with
  | number v | name | openBracket =>
      simp only [wrongToken?, hk] at h
      split at h
      · exact showsAt _ (Option.some.inj h)
      · cases h
  | operator op =>
      simp only [wrongToken?, hk] at h
      split at h
      · cases h
      · exact showsAt _ (Option.some.inj h)
  | openParen =>
      simp only [wrongToken?, hk] at h
      split at h
      · exact showsAt _ (Option.some.inj h)
      · cases h
  | closeParen =>
      simp only [wrongToken?, hk] at h
      split at h
      · split at h
        · exact showsAt _ (Option.some.inj h)
        · cases h
      · exact showsAt _ (Option.some.inj h)
  | _ => simp [wrongToken?, hk] at h

/-- A wrong token of a literal is where the error shows. -/
theorem Rows.showsAt_of_wrongToken? {r : Rows} {t : Token} {e : ParseError}
    (h : r.wrongToken? t = some e) : e.ShowsAt t.position := by
  have showsAt : ∀ cause, ParseError.at_ t.position cause = e → e.ShowsAt t.position := by
    rintro cause rfl
    exact ParseError.showsAt_at _ _
  cases hk : t.kind with
  | closeBracket =>
      simp only [wrongToken?, hk] at h
      split at h
      · cases h
      · exact showsAt _ (Option.some.inj h)
  | comma =>
      simp only [wrongToken?, hk] at h
      split at h
      · exact showsAt _ (Option.some.inj h)
      · cases h
  | newline =>
      simp only [wrongToken?, hk] at h
      split at h
      · cases h
      · obtain ⟨cause, -, he⟩ := Option.map_eq_some_iff.1 h
        exact showsAt cause he
  | semicolon =>
      simp only [wrongToken?, hk] at h
      obtain ⟨cause, -, he⟩ := Option.map_eq_some_iff.1 h
      exact showsAt cause he
  | _ => simp [wrongToken?, hk] at h

/-- A token that changes the state of an expression is neither a separator nor a bracket, and no other
parenthesis than itself is open behind it. -/
theorem Pending.of_token?_eq_some {s s' : Pending} {t : Token} (h : s.token? t = some s') :
    t.kind.isSeparator = false ∧ (∀ d, depthAfter d t.kind = d) ∧
      ∀ p ∈ s'.enclosing, p ∈ s.enclosing ∨ p.1 = t := by
  have keep : s'.enclosing = s.enclosing → ∀ p ∈ s'.enclosing, p ∈ s.enclosing ∨ p.1 = t := by
    intro hs p hp
    exact .inl (hs ▸ hp)
  cases hk : t.kind with
  | number v | name =>
      simp only [token?, hk] at h
      split at h
      · cases h
      · obtain rfl := Option.some.inj h
        exact ⟨rfl, fun _ => rfl, keep rfl⟩
  | operator op =>
      simp only [token?, hk] at h
      split at h
      · obtain rfl := Option.some.inj h
        exact ⟨rfl, fun _ => rfl, keep rfl⟩
      · cases h
  | openParen =>
      simp only [token?, hk] at h
      split at h
      · cases h
      · obtain rfl := Option.some.inj h
        refine ⟨rfl, fun _ => rfl, fun p hp => ?_⟩
        rcases List.mem_cons.1 hp with rfl | hp
        · exact .inr rfl
        · exact .inl hp
  | closeParen =>
      simp only [token?, hk, closeParen?] at h
      refine ⟨rfl, fun _ => rfl, fun p hp => ?_⟩
      split at h
      · cases henclosing : s.enclosing with
        | nil => simp [henclosing] at h
        | cons q qs =>
            simp only [henclosing, Option.some.injEq] at h
            obtain rfl := h
            exact .inl (List.mem_cons_of_mem _ hp)
      · cases h
  | _ => simp [token?, hk] at h

theorem ExpressionScans.nil : ExpressionScans [] := by
  intro finish line inMatrix n s hn ha d
  constructor
  · intro e rest h
    obtain ⟨-, rfl⟩ := expressionFrom_nil_gives.1 h
    exact .refl d []
  · intro e stop h
    obtain ⟨hclose, rfl⟩ := expressionFrom_nil_fails.1 h
    exact ⟨⟨d, .refl d []⟩, shows_of_close hclose⟩

/-- The step of an expression: the literal, if there is one, and what is behind the token or the literal
are shorter. -/
theorem ExpressionScans.cons {t : Token} {ts : List Token}
    (hs : ∀ ts', ts'.length ≤ ts.length → ExpressionScans ts') (hb : BodyScans ts) :
    ExpressionScans (t :: ts) := by
  intro finish line inMatrix n s hn ha d
  -- a bracket is passed by the scan, and with it the literal that it opens
  have bracket : ∀ {d' : Nat} {ts' : List Token}, t.kind = .openBracket → Leads (d + 1) ts d' ts' →
      Leads d (t :: ts) d' ts' := by
    intro d' ts' hk h
    refine .step (fun _ => by rw [hk]; rfl) ?_
    rw [hk]
    exact h
  constructor
  · intro e rest h
    rcases expressionFrom_cons_gives.1 h with
      ⟨-, -, rfl⟩ | ⟨s', ht, he⟩ | ⟨hk, -, rows, ts', hm, hn', ha', he⟩
    · exact .refl d _
    · obtain ⟨hseparator, hdepth, -⟩ := Pending.of_token?_eq_some ht
      refine .step (fun _ => hseparator) ?_
      rw [hdepth]
      exact (hs ts (Nat.le_refl _)).1 e rest he
    · have hbody := (hb d).1 rows ts' hm
      exact bracket hk (hbody.trans ((hs ts' (Nat.le_of_lt hm.length_lt)).1 e rest he))
  · intro e stop h
    rcases expressionFrom_cons_fails.1 h with ⟨hw, rfl⟩ | ⟨-, hclose, rfl⟩ | ⟨s', ht, he⟩ |
      ⟨hk, -, hm | ⟨rows, ts', hm, hn', ha', he⟩⟩
    · refine ⟨⟨d, .refl d _⟩, .inr ⟨[], t :: ts, rfl, Nat.le_refl _, ?_⟩⟩
      exact Pending.showsAt_of_wrongToken? hw
    · exact ⟨⟨d, .refl d _⟩, shows_of_close hclose⟩
    · obtain ⟨hseparator, hdepth, henclosing⟩ := Pending.of_token?_eq_some ht
      obtain ⟨⟨d', hleads⟩, hshows⟩ := (hs ts (Nat.le_refl _)).2 e stop he
      have hleads : Leads d (t :: ts) d' stop := by
        refine .step (fun _ => hseparator) ?_
        rw [hdepth]
        exact hleads
      refine ⟨⟨d', hleads⟩, ?_⟩
      rcases hshows with ⟨p, hp, hshows⟩ | hwithin
      · rcases henclosing p hp with hp | rfl
        · exact .inl ⟨p, hp, hshows⟩
        · -- the parenthesis that has just been read is never closed
          obtain ⟨span, heq⟩ := hleads.exists_append
          refine .inr ⟨[], p.1 :: ts, rfl, ?_, hshows⟩
          rw [heq, List.length_append]
          exact Nat.le_add_left _ _
      · exact .inr (hwithin.append [t])
    · obtain ⟨⟨d', hleads⟩, hwithin⟩ := (hb d).2 e stop hm
      exact ⟨⟨d', bracket hk hleads⟩, .inr (hwithin.append [t])⟩
    · have hbody := (hb d).1 rows ts' hm
      obtain ⟨⟨d', hleads⟩, hshows⟩ := (hs ts' (Nat.le_of_lt hm.length_lt)).2 e stop he
      refine ⟨⟨d', bracket hk (hbody.trans hleads)⟩, ?_⟩
      rcases hshows with hshows | hwithin
      · exact .inl hshows
      · obtain ⟨span, rfl⟩ := hbody.exists_append
        exact .inr (hwithin.append (t :: span))

/-- A cell that starts with nothing read. -/
theorem ExpressionScans.cell {ts : List Token} (hs : ExpressionScans ts) (d : Nat) :
    (∀ e rest, (expression finish true ts).Gives e rest → Leads d ts d rest) ∧
    ∀ e stop, (expression finish true ts).Fails e stop → LiteralStops finish d ts e stop := by
  refine ⟨fun e rest h => hs.1 e rest h, fun e stop h => ?_⟩
  obtain ⟨hleads, ⟨p, hp, -⟩ | hwithin⟩ := hs.2 e stop h
  · exact absurd hp List.not_mem_nil
  · exact ⟨hleads, hwithin⟩

/-- A cell and what comes behind it. -/
theorem LiteralStops.of_cell {d : Nat} {ts ts' stop : List Token} {e : ParseError}
    (hcell : Leads d ts d ts') (h : LiteralStops finish d ts' e stop) : LiteralStops finish d ts e stop := by
  obtain ⟨⟨d', hleads⟩, hwithin⟩ := h
  obtain ⟨span, rfl⟩ := hcell.exists_append
  exact ⟨⟨d', hcell.trans hleads⟩, hwithin.append span⟩

theorem LiteralStops.of_showsAt {d : Nat} {t : Token} {ts : List Token} {e : ParseError}
    (h : e.ShowsAt t.position) : LiteralStops finish d (t :: ts) e (t :: ts) :=
  ⟨⟨d, .refl d _⟩, [], t :: ts, rfl, Nat.le_refl _, h⟩

/-- At the end of the text a literal fails. -/
theorem LiteralStops.nil (d : Nat) :
    LiteralStops finish d [] (.at_ finish .incompleteStatement) [] :=
  ⟨⟨d, .refl d _⟩, ParseError.within_at finish [] _⟩

theorem RowsScan.nil : RowsScan [] := by
  intro finish r d
  constructor
  · intro rows rest h
    exact (rowsFrom_nil_gives.1 h).elim
  · intro e stop h
    obtain ⟨rfl, rfl⟩ := rowsFrom_nil_fails.1 h
    exact .nil (d + 1)

theorem RowsScan.cons {t : Token} {ts : List Token} (hs : ExpressionScans (t :: ts))
    (hr : ∀ ts', ts'.length ≤ ts.length → RowsScan ts') : RowsScan (t :: ts) := by
  intro finish r d
  have hcell := @ExpressionScans.cell finish (t :: ts) hs (d + 1)
  -- inside a literal separators are passed
  have inside : d + 1 = 0 → t.kind.isSeparator = false := fun h => absurd h (Nat.succ_ne_zero d)
  have separator : ∀ {r' : Rows}, r.token? t = some r' → depthAfter (d + 1) t.kind = d + 1 := by
    intro r' h
    unfold Rows.token? at h
    cases hk : t.kind <;> simp [hk] at h <;> rfl
  constructor
  · intro rows rest h
    rcases rowsFrom_cons_gives.1 h with ⟨hk, -, rfl⟩ | ⟨r', ht, h'⟩ | ⟨-, e, ts', he, h'⟩
    · refine .step inside ?_
      rw [hk]
      exact .refl d _
    · refine .step inside ?_
      rw [separator ht]
      exact (hr ts (Nat.le_refl _) d).1 rows rest h'
    · have hlength : ts'.length ≤ ts.length := Nat.le_of_lt_succ he.length_lt
      exact (hcell.1 e ts' he).trans ((hr ts' hlength d).1 rows rest h')
  · intro e stop h
    rcases rowsFrom_cons_fails.1 h with ⟨hw, rfl⟩ | ⟨r', ht, h'⟩ | ⟨-, he | ⟨x, ts', he, h'⟩⟩
    · exact .of_showsAt (Rows.showsAt_of_wrongToken? hw)
    · obtain ⟨⟨d', hleads⟩, hwithin⟩ := (hr ts (Nat.le_refl _) d).2 e stop h'
      refine ⟨⟨d', .step inside ?_⟩, hwithin.append [t]⟩
      rw [separator ht]
      exact hleads
    · exact hcell.2 e stop he
    · have hlength : ts'.length ≤ ts.length := Nat.le_of_lt_succ he.length_lt
      exact .of_cell (hcell.1 x ts' he) ((hr ts' hlength d).2 e stop h')

theorem BodyScans.nil : BodyScans [] := by
  intro finish d
  constructor
  · intro rows rest h
    exact (matrixBody_nil_gives h).elim
  · intro e stop h
    obtain ⟨rfl, rfl⟩ := matrixBody_nil_fails.1 h
    exact .nil (d + 1)

theorem BodyScans.cons {t : Token} {ts : List Token} (hs : ExpressionScans (t :: ts))
    (hr : ∀ ts', ts'.length ≤ ts.length → RowsScan ts') : BodyScans (t :: ts) := by
  intro finish d
  have hcell := @ExpressionScans.cell finish (t :: ts) hs (d + 1)
  constructor
  · intro rows rest h
    rcases matrixBody_cons_gives.1 h with ⟨hk, -, rfl⟩ | ⟨-, -, e, ts', he, h'⟩
    · refine .step (fun h => absurd h (Nat.succ_ne_zero d)) ?_
      rw [hk]
      exact .refl d _
    · have hlength : ts'.length ≤ ts.length := Nat.le_of_lt_succ he.length_lt
      exact (hcell.1 e ts' he).trans ((hr ts' hlength d).1 rows rest h')
  · intro e stop h
    rcases matrixBody_cons_fails.1 h with ⟨-, rfl, rfl⟩ | ⟨-, -, he | ⟨x, ts', he, h'⟩⟩
    · exact .of_showsAt (ParseError.showsAt_at _ _)
    · exact hcell.2 e stop he
    · have hlength : ts'.length ≤ ts.length := Nat.le_of_lt_succ he.length_lt
      exact .of_cell (hcell.1 x ts' he) ((hr ts' hlength d).2 e stop h')

/-- **The scan follows all three parsers**, by induction on the number of tokens: at the same tokens a
literal and its rows come after the expressions that they start with. -/
theorem scans (ts : List Token) : ExpressionScans ts ∧ BodyScans ts ∧ RowsScan ts :=
  tokens_induction ⟨.nil, .nil, .nil⟩ (fun _ _ => .cons) (fun _ _ => .cons) (fun _ _ => .cons) ts

/-- **The scan comes to the token at which a statement fails**, and the error shows at a token up to
that. -/
theorem literalStops_of_statement_fails {ts stop : List Token} {e : ParseError}
    (h : (statement finish ts).Fails e stop) : LiteralStops finish 0 ts e stop := by
  rcases statement_fails_iff.1 h with hx | ⟨x, t, rest, hx, -, rfl, rfl⟩
  · obtain ⟨hleads, ⟨p, hp, -⟩ | hwithin⟩ := (scans ts).1.2 e stop hx
    · exact absurd hp List.not_mem_nil
    · exact ⟨hleads, hwithin⟩
  · have hleads : Leads 0 ts 0 (t :: rest) := (scans ts).1.1 x _ hx
    exact .of_cell hleads (.of_showsAt (ParseError.showsAt_at _ _))

/-! ### Where recovery ends -/

/-- How many brackets are open behind the tokens `ts`; a closing bracket that closes none does not count. -/
def bracketDepth (ts : List Token) : Nat := ts.foldl (fun d t => depthAfter d t.kind) 0

/-- A statement that starts at the tokens `ts` may end at the `i`-th of them: a separator outside
brackets. -/
def IsBoundary (ts : List Token) (i : Nat) : Prop :=
  ∃ t, ts[i]? = some t ∧ t.kind.isSeparator = true ∧ bracketDepth (ts.take i) = 0

/-- Recovery passes over the tokens before the first boundary, or over all tokens if there is none; the
boundary itself is left out.  The scan has come from the tokens `before` to the tokens `ts`. -/
theorem recoverFrom_boundary {d : Nat} {before ts : List Token} (hd : bracketDepth before = d)
    (hbefore : ∀ i < before.length, ¬ IsBoundary (before ++ ts) i) :
    ∃ k, before.length ≤ k ∧ (before ++ ts).take k = before ++ (recoverFrom d ts).1 ∧
      (∀ i < k, ¬ IsBoundary (before ++ ts) i) ∧
      ((IsBoundary (before ++ ts) k ∧ (recoverFrom d ts).2 = (before ++ ts).drop (k + 1)) ∨
        (k = (before ++ ts).length ∧ (recoverFrom d ts).2 = [])) := by
  induction ts generalizing d before with
  | nil =>
      refine ⟨before.length, Nat.le_refl _, by simp [recoverFrom], hbefore, .inr ⟨by simp, rfl⟩⟩
  | cons t ts ih =>
      have hget : (before ++ t :: ts)[before.length]? = some t := by simp
      by_cases hend : d = 0 ∧ t.kind.isSeparator = true
      · refine ⟨before.length, Nat.le_refl _, by simp [recoverFrom, hend], hbefore, .inl ⟨?_, ?_⟩⟩
        · exact ⟨t, hget, hend.2, by simp [hd, hend.1]⟩
        · rw [recoverFrom, if_pos hend, List.drop_append]
          simp
      · -- the token is passed: it is no boundary
        have hnot : ¬ IsBoundary (before ++ t :: ts) before.length := by
          rintro ⟨u, hu, hseparator, hdepth⟩
          obtain rfl : t = u := Option.some.inj (hget.symm.trans hu)
          rw [List.take_left, hd] at hdepth
          exact hend ⟨hdepth, hseparator⟩
        have hd' : bracketDepth (before ++ [t]) = depthAfter d t.kind := by
          rw [bracketDepth, List.foldl_append]
          simp only [List.foldl_cons, List.foldl_nil]
          rw [← hd]
          rfl
        have happend : before ++ t :: ts = (before ++ [t]) ++ ts := by simp
        have hbefore' : ∀ i < (before ++ [t]).length, ¬ IsBoundary ((before ++ [t]) ++ ts) i := by
          intro i hi
          rw [← happend]
          rcases Nat.lt_succ_iff_lt_or_eq.1 (by simpa using hi) with hi | rfl
          · exact hbefore i hi
          · exact hnot
        obtain ⟨k, hk, htake, hnone, hend'⟩ := ih hd' hbefore'
        rw [← happend] at htake hnone hend'
        refine ⟨k, ?_, ?_, hnone, ?_⟩
        · rw [List.length_append] at hk
          omega
        · rw [htake, recoverFrom, if_neg hend]
          simp
        · rw [recoverFrom, if_neg hend]
          exact hend'

/-- Recovery from a statement that fails: it passes over `k` tokens, and the parser has not come further. -/
theorem exists_recover_of_fails {ts stop : List Token} {e : ParseError}
    (h : (statement finish ts).Fails e stop) :
    ∃ k, (recover ts).1 = ts.take k ∧ (∀ i < k, ¬ IsBoundary ts i) ∧
      ((IsBoundary ts k ∧ k < ts.length ∧ (recover ts).2 = ts.drop (k + 1)) ∨
        (k = ts.length ∧ (recover ts).2 = [])) ∧
      (stop.length ≤ ts.length ∧ ts.length ≤ k + stop.length) ∧
      ∃ j ≤ k, e.ShowsAt (positionOf finish (ts.drop j)) := by
  obtain ⟨⟨d, hleads⟩, front, back, rfl, hback, hshows⟩ := literalStops_of_statement_fails h
  obtain ⟨k, -, htake, hnone, hend⟩ := @recoverFrom_boundary 0 [] (front ++ back) rfl (by simp)
  simp only [List.nil_append] at htake hnone hend
  have hend : (IsBoundary (front ++ back) k ∧ k < (front ++ back).length ∧
      (recover (front ++ back)).2 = (front ++ back).drop (k + 1)) ∨
      (k = (front ++ back).length ∧ (recover (front ++ back)).2 = []) := by
    rcases hend with ⟨hboundary, hrest⟩ | hall
    · obtain ⟨u, hu, -⟩ := id hboundary
      exact .inl ⟨hboundary, (List.getElem?_eq_some_iff.1 hu).1, hrest⟩
    · exact .inr hall
  have hk : k ≤ (front ++ back).length := by
    rcases hend with ⟨-, hlt, -⟩ | ⟨rfl, -⟩
    · exact Nat.le_of_lt hlt
    · exact Nat.le_refl _
  -- the scan passes over all that the parser has read
  have hread : (front ++ back).length ≤ k + stop.length := by
    have hle := hleads.length_le
    rw [← htake, List.length_take, Nat.min_eq_left hk] at hle
    exact hle
  obtain ⟨span, hspan⟩ := hleads.exists_append
  have hstop : stop.length ≤ (front ++ back).length := by
    rw [hspan, List.length_append]
    exact Nat.le_add_left _ _
  refine ⟨k, htake.symm, hnone, hend, ⟨hstop, hread⟩, front.length, ?_, ?_⟩
  · rw [List.length_append] at hread
    omega
  · rw [List.drop_left]
    exact hshows

namespace Cursor

/-- The tokens at a token of the text. -/
theorem rest?_natCast (source : Tokens) {s : Nat} (hs : s ≤ source.list.length) :
    (⟨source, s⟩ : Cursor).rest? = .ok (source.list.drop s) := by
  have hoffset : (⟨source, s⟩ : Cursor).offset = s := if_neg (by simp)
  rw [rest?, hoffset, if_pos (by constructor <;> simp [hs]), Int.toNat_natCast]

/-- A parser that gives an error fails. -/
theorem fails_of_run {α : Type} {c c' : Cursor} {p : Position → (ts : List Token) → Outcome α ts.length}
    {ts : List Token} {e : ParseError} (hrest : c.rest? = .ok ts)
    (h : c.run p = (.error (.parse e), c')) :
    ∃ stop, (p c.source.finish ts).Fails e stop ∧ c' = c.moved ts stop := by
  rw [run, hrest, Prod.mk.injEq] at h
  obtain ⟨hresult, rfl⟩ := h
  refine ⟨_, ⟨?_, rfl⟩, rfl⟩
  cases hr : (p c.source.finish ts).result with
  | ok a =>
      rw [hr] at hresult
      cases hresult
  | error e' =>
      rw [hr] at hresult
      cases hresult
      rfl

/-- **Recovery and the parser agree on where a failed statement ends.**  Let `t :: ts` be the tokens of a text
from `s` on, and let the statement there fail with the error `e` and leave the cursor `c`.  Recovery from `s`
passes over the `k` tokens before the first separator outside brackets and stands behind that, or passes over
all if there is none.  The parser has not come further than to that separator, and recovery is behind `s`.  A
parser that counts the literals that it is in gives the same, and its counter is zero again.  The error shows at
a token from `s` to the separator, or at the end of the text if there is none. -/
theorem recover_of_run_statement {source : Tokens} {s : Nat} {t : Token} {ts : List Token}
    (hts : source.list.drop s = t :: ts) {e : ParseError} {c : Cursor}
    (h : (⟨source, s⟩ : Cursor).run statement = (.error (.parse e), c)) :
    ∃ k, (c.recover s).1 = .ok ((t :: ts).take k) ∧ (∀ i < k, ¬ IsBoundary (t :: ts) i) ∧
      ((IsBoundary (t :: ts) k ∧ (c.recover s).2 = ⟨source, s + k + 1⟩) ∨
        (k = (t :: ts).length ∧ (c.recover s).2 = ⟨source, s + k⟩)) ∧
      (s ≤ c.index ∧ c.index ≤ s + k) ∧ s < (c.recover s).2.index ∧
      Counting.statement source.finish (t :: ts) 0 = (statement source.finish (t :: ts), 0) ∧
      ∃ j ≤ k, e.ShowsAt (positionOf source.finish ((t :: ts).drop j)) := by
  have hs : s ≤ source.list.length := by
    rcases Nat.le_total s source.list.length with hle | hge
    · exact hle
    · rw [List.drop_eq_nil_of_le hge] at hts
      cases hts
  have hrest := rest?_natCast source hs
  rw [hts] at hrest
  obtain ⟨stop, hfails, rfl⟩ := fails_of_run hrest h
  obtain ⟨k, htake, hnone, hend, ⟨hstop, hread⟩, hshows⟩ := exists_recover_of_fails hfails
  have hrecover : ((⟨source, s⟩ : Cursor).moved (t :: ts) stop).recover s =
      (.ok (Parse.recover (t :: ts)).1,
        (⟨source, s⟩ : Cursor).moved (t :: ts) (Parse.recover (t :: ts)).2) := by
    simp only [Cursor.recover, moved, hrest]
  have hlt := length_recover_lt t ts
  rw [hrecover]
  refine ⟨k, by rw [htake], hnone, ?_, ⟨?_, ?_⟩, ?_, Counting.statement_zero _ _, hshows⟩
  · rcases hend with ⟨hboundary, hk, hback⟩ | ⟨rfl, hback⟩
    · refine .inl ⟨hboundary, ?_⟩
      have hindex : (t :: ts).length - ((t :: ts).length - (k + 1)) = k + 1 := by omega
      rw [hback, moved, List.length_drop, hindex, Int.natCast_add, ← Int.add_assoc]
      rfl
    · refine .inr ⟨rfl, ?_⟩
      rw [hback, moved]
      rfl
  · simp only [moved]
    omega
  · simp only [moved]
    omega
  · simp only [moved]
    omega

/-- The tokens of a text with a parenthesis in a literal that is closed before the parenthesis. -/
def parenInLiteral : Tokens :=
  ⟨[⟨.openBracket, "[", ⟨0, 1, 1⟩⟩, ⟨.name, "a", ⟨1, 1, 2⟩⟩, ⟨.newline, "\n", ⟨2, 1, 3⟩⟩,
    ⟨.openParen, "(", ⟨3, 2, 1⟩⟩, ⟨.closeBracket, "]", ⟨4, 2, 2⟩⟩, ⟨.newline, "\n", ⟨5, 2, 3⟩⟩,
    ⟨.name, "b", ⟨6, 3, 1⟩⟩], ⟨7, 3, 2⟩⟩

theorem lex_parenInLiteral : lex "[a\n(]\nb" = .ok parenInLiteral := by
  set_option maxRecDepth 100000 in cbv

theorem run_statement_parenInLiteral :
    (⟨parenInLiteral, (0 : Nat)⟩ : Cursor).run statement =
      (.error (.parse (.at_ ⟨4, 2, 2⟩ (.invalidExpression "expected an operand before CloseBracket"))),
        ⟨parenInLiteral, 4⟩) := by
  set_option maxRecDepth 100000 in cbv

/-- The first line end is in the literal, and so recovery from the first statement of this text ends at the
second one. -/
theorem recover_of_run_statement_paren :
    ∃ (t : Token) (ts : List Token) (e : ParseError) (c : Cursor),
      lex "[a\n(]\nb" = .ok parenInLiteral ∧ parenInLiteral.list.drop 0 = t :: ts ∧
      (⟨parenInLiteral, (0 : Nat)⟩ : Cursor).run statement = (.error (.parse e), c) ∧
      ∃ k, (c.recover (0 : Nat)).1 = .ok ((t :: ts).take k) ∧ (∀ i < k, ¬ IsBoundary (t :: ts) i) ∧
        ((IsBoundary (t :: ts) k ∧ (c.recover (0 : Nat)).2 = ⟨parenInLiteral, (0 : Nat) + k + 1⟩) ∨
          (k = (t :: ts).length ∧ (c.recover (0 : Nat)).2 = ⟨parenInLiteral, (0 : Nat) + k⟩)) ∧
        ((0 : Nat) ≤ c.index ∧ c.index ≤ (0 : Nat) + k) ∧ (0 : Nat) < (c.recover (0 : Nat)).2.index ∧
        Counting.statement parenInLiteral.finish (t :: ts) 0 =
          (statement parenInLiteral.finish (t :: ts), 0) ∧
        ∃ j ≤ k, e.ShowsAt (positionOf parenInLiteral.finish ((t :: ts).drop j)) :=
  ⟨_, _, _, _, lex_parenInLiteral, rfl, run_statement_parenInLiteral,
    recover_of_run_statement rfl run_statement_parenInLiteral⟩

end Cursor

end Parse

end MatrixCalc
