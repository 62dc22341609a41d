/-
**What can come of a source text.**

A session reports on every source text: each attempt has an output or a diagnostic, unless the session stops
at the first failure.  There is one way out of this.  A tolerance that is no number is not negative, so a
context takes it, but with it nothing counts as zero.  Then a zero is taken for a pivot, and the division by
it, which is no failure of a statement, ends the run without a report.

Main definitions:

* `MatrixCalc.Run.IsReported` — each attempt of a run has an output or a diagnostic, or the run was left.

Main results:

* `MatrixCalc.Parse.Obtained.storesAns?` — whether an obtained statement updates `ans` is never in doubt;
* `MatrixCalc.Run.ofAttempts_cases` — what attempts give is reported, unless one of them ends the run;
* `MatrixCalc.Session.run_cases` — **what can come of a source text**;
* `MatrixCalc.Grid.inverse?_of_isNaN` — a zero on top of the first column is divided by if the tolerance is
  no number;
* `MatrixCalc.Session.run_quotient_of_isNaN` — a run without a report.
-/

import MatrixCalc.Proofs.Session.Isolation

set_option autoImplicit false

namespace MatrixCalc

variable {c : Context}

/-! ### Statements -/

/-- The expression of a tree is neither an operator nor vacant. -/
theorem ExprTree.isStatement_ofItems (t : ExprTree) (line : Int) :
    (Expr.ofItems line t.postorder).isStatement = true := by
  cases t with
  | node l op left right =>
      rw [Expr.ofItems_of_two_le (two_le_length_postorder_node l op left right)]
      rfl
  | _ => simp [postorder, Expr.ofItems, Expr.isStatement]

/-- Whether an obtained statement updates `ans` is never in doubt. -/
theorem Parse.Obtained.storesAns? {source : String} {s : Statement} (h : Obtained source s) :
    s.expr.storesAns? = .ok s.storesAns := by
  obtain ⟨finish, start, rest, hs⟩ := h.exists_gives
  obtain ⟨t, -, ht⟩ := exists_tree_of_statement_gives hs
  obtain ⟨e, rest', prints, -, rfl⟩ := exists_expression_of_statement_gives hs
  have hstatement : e.isStatement = true := by
    have hexpr := t.isStatement_ofItems t.line
    rw [ht] at hexpr
    exact hexpr
  exact if_pos hstatement

/-! ### Reports -/

namespace Run

/-- A run is reported: each attempt has an output or a diagnostic, or the run was left at the first
failure. -/
def IsReported (c : Context) (as : List Attempt) (r : Run) : Prop :=
  r.abort = none ∧
    (r.outputs.length + r.diagnostics.length = as.length ∨
      c.crashOnError = true ∧ r.diagnostics.length = 1)

/-- A run stays reported with an attempt in front that does not end it. -/
theorem IsReported.push {as : List Attempt} {run : Run} (h : run.IsReported c as) (a : Attempt) {r : Round}
    (hgoes : (c.crashOnError && r.fails) = false) : (run.push r).IsReported c (a :: as) := by
  obtain ⟨habort, hcount⟩ := h
  have hone := r.event.length_toList
  refine ⟨habort, ?_⟩
  rw [outputs_push, diagnostics_push, List.length_append, List.length_append, List.length_cons]
  rcases hcount with hcount | ⟨hcrash, hcount⟩
  · exact .inl (by omega)
  · -- a run that was left at its first failure has outputs in front of it only
    have hfails : r.fails = false := by simpa [hcrash] using hgoes
    have houtput : r.event.output?.toList.length = 1 := by
      obtain ⟨o, ho⟩ := Option.isSome_iff_exists.1 (by simpa [Round.fails] using hfails)
      rw [ho]
      rfl
    exact .inr ⟨hcrash, by omega⟩

/-- **What attempts give is reported, unless one of them ends the run**, which then ends in what ended it. -/
theorem ofAttempts_cases {P : Prop} {e : Failure} {as : List Attempt}
    (has : ∀ a ∈ as, ∀ env, (∃ r, (a.round c env).1 = .ok r) ∨ P ∧ (a.round c env).1 = .error e)
    (env : Env (Value Float)) :
    (ofAttempts c as env).IsReported c as ∨ P ∧ (ofAttempts c as env).abort = some e := by
  induction as generalizing env with
  | nil => exact .inl ⟨rfl, .inl rfl⟩
  | cons a as ih =>
      have hrest := ih fun a ha => has a (by simp [ha])
      rw [ofAttempts]
      rcases hround : a.round c env with ⟨e' | r, env'⟩
      · rcases has a (by simp) env with ⟨r, hr⟩ | ⟨hP, he⟩
        · rw [hround] at hr
          cases hr
        · rw [hround] at he
          cases he
          exact .inr ⟨hP, rfl⟩
      · dsimp only
        split
        · next hstop =>
            obtain ⟨hcrash, hfails⟩ : c.crashOnError = true ∧ r.fails = true := by simpa using hstop
            have hone := r.event.length_toList
            have houtput : r.event.output? = none := by simpa [Round.fails] using hfails
            rw [houtput] at hone
            refine .inl ⟨rfl, .inr ⟨hcrash, ?_⟩⟩
            rw [diagnostics_push, List.length_append]
            simpa [diagnostics, done] using hone
        · next hgoes =>
            rcases hrest env' with hreported | ⟨hP, habort⟩
            · exact .inl (hreported.push a (by simpa using hgoes))
            · exact .inr ⟨hP, habort⟩

end Run

namespace Session

/-- **What can come of a source text.**  There is a report, which has one diagnostic if the text cannot be
cut into tokens, and else an output or a diagnostic for each attempt, unless the session is to stop at a
failure, of which there is one then.  Or the tolerance is no number, and the run has ended in a division by
zero.  It is never in doubt whether a statement of the text updates `ans`. -/
theorem run_cases (s : Session) (source : String) :
    ((∃ report, (s.run source).result = .ok report ∧
        (∀ e, lex source = .error e → report = ⟨[], [.ofLex e]⟩) ∧
        ∀ ts, lex source = .ok ts →
          report.outputs.length + report.diagnostics.length =
              (Parse.attempts ts.finish ts.list).length ∨
            s.context.crashOnError = true ∧ report.diagnostics.length = 1) ∨
      s.context.zeroTolerance.isNaN = true ∧
        (s.run source).result = .error (.division .zeroDivision)) ∧
    ∀ stmt, Parse.Obtained source stmt → stmt.expr.storesAns? = .ok stmt.storesAns := by
  refine ⟨?_, fun stmt h => h.storesAns?⟩
  cases hlex : lex source with
  | error e =>
      rw [run_of_lex_error hlex]
      exact .inl ⟨_, rfl, fun e' he => (by cases he; rfl), fun ts hts => (by cases hts)⟩
  | ok ts =>
      have hcases := Run.ofAttempts_cases
        (fun a ha env => Parse.round_cases_of_mem_attempts s.context hlex ha env) s.env
      rw [run_of_lex_ok hlex, reportOf, Run.ofTokens_eq_ofAttempts]
      rcases hcases with ⟨habort, hcount⟩ | ⟨hnan, habort⟩
      · rw [habort]
        refine .inl ⟨_, rfl, fun e he => (by cases he), fun ts' hts => ?_⟩
        obtain rfl : ts = ts' := Except.ok.inj hts
        exact hcount
      · rw [habort]
        exact .inr ⟨hnan, rfl⟩

/-- If its tolerance is at least zero, a session has a report about every text. -/
theorem exists_report {s : Session} (htolerance : 0 ≤ s.context.zeroTolerance) (source : String) :
    ∃ report, (s.run source).result = .ok report := by
  rcases (s.run_cases source).1 with ⟨report, hreport, -⟩ | ⟨hnan, -⟩
  · exact ⟨report, hreport⟩
  · rw [Decimal.isNaN_of_le htolerance] at hnan
    cases hnan

end Session

/-! ### The way out -/

namespace Decimal

open Float.Model

/-- Nothing is at most what is no number. -/
theorem not_le_of_isNaN {x y : Float} (h : y.isNaN = true) : ¬ x ≤ y := by
  intro hle
  rw [isNaN_of_le hle] at h
  cases h

end Decimal

/-- With a tolerance that is no number, nothing counts as zero. -/
theorem Numeric.negligible_of_isNaN {tolerance : Float} (h : tolerance.isNaN = true) (x : Float) :
    negligible tolerance x = false := decide_eq_false (Decimal.not_le_of_isNaN h)

/-- If the tolerance is no number, a zero on top of the first column is divided by. -/
theorem Grid.inverse?_of_isNaN {tolerance : Float} (h : tolerance.isNaN = true) {n : Nat}
    (g : Grid Float (n + 1) (n + 1)) (hzero : (g.cell 0 0 == 0) = true) :
    g.inverse? tolerance = .error .zeroDivision := by
  have hpivot : Elimination.findPivot? tolerance g 0 0 = some 0 := by
    simp [Elimination.findPivot?, List.finRange_succ, Numeric.negligible_of_isNaN h]
  have hdivisor : Numeric.isDivisor (((Inversion.start g).swap 0 0).work.cell 0 0) = false := by
    show (!((g.swapRows 0 0).cell 0 0 == 0)) = false
    rw [cell_swapRows, swapIndex_left, hzero, Bool.not_true]
  have hround : (Inversion.start g).round tolerance 0 = .error .zeroDivision := by
    have hfind : Elimination.findPivot? tolerance (Inversion.start g).work (0 : Fin (n + 1)) 0 = some 0 :=
      hpivot
    simp only [Inversion.round, hfind, hdivisor, Bool.false_eq_true, if_false]
  rw [inverse?, List.finRange_succ, Inversion.rounds, hround]
  rfl

/-- The text `z/z`. -/
theorem Parse.attempts_quotient :
    (lex "z/z").map (fun ts => attempts ts.finish ts.list) = .ok
      [.parsed ⟨.sequence 1 [.name 1 "z", .name 1 "z", .operator 1 .divide], true, true, 1⟩] := by
  set_option maxRecDepth 100000 in cbv

namespace Session

/-- **A run without a report**: the tolerance is no number, and a matrix with a zero on top of its first
column is divided by itself. -/
theorem run_quotient_of_isNaN (s : Session) (hnan : s.context.zeroTolerance.isNaN = true) {n : Nat}
    {g : Grid Float (n + 1) (n + 1)} (hz : s.env.get? "z" = some (.matrix ⟨n + 1, n + 1, g⟩))
    (hzero : (g.cell 0 0 == 0) = true) : (s.run "z/z").result = .error (.division .zeroDivision) := by
  obtain ⟨ts, hlex, hattempts⟩ : ∃ ts, lex "z/z" = .ok ts ∧ Parse.attempts ts.finish ts.list =
      [.parsed ⟨.sequence 1 [.name 1 "z", .name 1 "z", .operator 1 .divide], true, true, 1⟩] :=
    exists_lex_of_map_eq_ok Parse.attempts_quotient
  have hdiv : Value.apply s.context.zeroTolerance .divide (.matrix ⟨n + 1, n + 1, g⟩)
      (.matrix ⟨n + 1, n + 1, g⟩) = .error (.division .zeroDivision) := by
    have hshape : (DenseMatrix.mk _ _ g).shape.isSquare = true := by
      simp [DenseMatrix.shape, Shape.isSquare]
    simp [Value.apply, Value.div, Value.combine, Value.divMatrix, hshape, DenseMatrix.inverse?_mk,
      Grid.inverse?_of_isNaN hnan g hzero, Except.map]
  have hoperand : Eval.operand s.context
      (.sequence 1 [.name 1 "z", .name 1 "z", .operator 1 .divide]) =
        (ExprTree.node 1 .divide (.name 1 "z") (.name 1 "z")).evaluate s.context := by
    rw [← Eval.items_postorder_nil, Eval.operand]
    simp [ExprTree.postorder]
  have hpush : s.env.push.get? "z" = some (.matrix ⟨n + 1, n + 1, g⟩) := hz
  have hresult : (Statement.evaluate s.context
      ⟨.sequence 1 [.name 1 "z", .name 1 "z", .operator 1 .divide], true, true, 1⟩ s.env).result =
        .error (.division .zeroDivision) := by
    simp only [Statement.evaluate, Eval.answer, hoperand, ExprTree.evaluate, Eval.run_bind,
      Eval.run_pure, reduceCtorEq, if_false, Eval.run_resolve_reference, hpush, hdiv,
      Eval.run_ofExcept]
  rw [run_of_lex_ok hlex, Run.ofTokens_eq_ofAttempts, hattempts, Run.ofAttempts, Attempt.round]
  simp only [hresult]
  rfl

/-- A context takes a tolerance that is no number, and with it the text `z/z` has no report if `z` is the
zero matrix of one cell. -/
theorem run_without_report :
    ∃ c, Context.make (0 / 0) false true = .ok c ∧
      ∀ report, (run ⟨c, Env.empty.set "z" (.matrix ⟨1, 1, .ofFn fun _ _ => 0⟩)⟩ "z/z").result ≠
        .ok report := by
  have htaken : ¬ (0 / 0 : Float) < 0 := by decide
  have hnan : (0 / 0 : Float).isNaN = true := by decide
  have hmake : Context.make (0 / 0) false true = .ok ⟨0 / 0, false, true, htaken⟩ := by
    rw [Context.make, dif_neg htaken]
  refine ⟨_, hmake, fun report hreport => ?_⟩
  have hz : (Env.empty.set "z" (.matrix ⟨1, 1, .ofFn fun _ _ => 0⟩) : Env (Value Float)).get? "z" =
      some (.matrix ⟨0 + 1, 0 + 1, .ofFn fun _ _ => 0⟩) := by
    rw [Env.get?_set, if_pos rfl]
  have hzero : ((Grid.ofFn fun _ _ => 0 : Grid Float (0 + 1) (0 + 1)).cell 0 0 == 0) = true := by
    rw [Grid.cell_ofFn]
    decide
  have hrun := hreport.symm.trans (run_quotient_of_isNaN _ hnan hz hzero)
  cases hrun

end Session

end MatrixCalc
