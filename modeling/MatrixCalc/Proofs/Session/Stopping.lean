/-
**Stopping at the first failure.**

A session that stops at failures and one that goes on do the same until a statement fails.  If none does, they
do the same to the end.  Else the one that stops has the outputs of the statements before the first failure, one
diagnostic, which is the first of the other one, and the environment that these statements leave, since a
failure changes nothing.

Main definitions:

* `MatrixCalc.Session.stopping` — a session that is to stop at failures, or not to;
* `MatrixCalc.FirstFailure` — where the first failure is among some attempts;
* `MatrixCalc.Session.LeftAt` — a report is about what is in front of the first failure of a text.

Main results:

* `MatrixCalc.Eval.operand_eq_of_tolerance` — evaluation depends on the tolerance of a context only;
* `MatrixCalc.exists_firstFailure` — no attempt fails, or there is a first one that does;
* `MatrixCalc.Run.ofAttempts_append_of_inTurn` — statements without a failure, whether or not a run is to stop;
* `MatrixCalc.Session.run_stopping` — **a session that stops has what is in front of the first failure**.
-/

import MatrixCalc.Proofs.Session.InOrder
import MatrixCalc.Proofs.Session.Totality

set_option autoImplicit false

namespace MatrixCalc

/-! ### The tolerance of a context -/

section

variable {c c' : Context}

namespace Eval

theorem binary_eq_of_tolerance (h : c.zeroTolerance = c'.zeroTolerance) (line : Int) (op : Operator)
    (o o' : Operand) : binary c line op o o' = binary c' line op o o' := by
  rw [binary_eq, binary_eq, h]

theorem operator_eq_of_tolerance (h : c.zeroTolerance = c'.zeroTolerance) (line : Int) (op : Operator) :
    ∀ stack : List Operand, operator c line op stack = operator c' line op stack
  | [] | [_] => rfl
  | o' :: o :: stack => by rw [operator, operator, binary_eq_of_tolerance h]

mutual

/-- **Evaluation depends on the tolerance of a context only.** -/
theorem operand_eq_of_tolerance (h : c.zeroTolerance = c'.zeroTolerance) :
    ∀ e : Expr, operand c e = operand c' e
  | .number _ _ | .name _ _ | .operator _ _ | .vacant => by rw [operand, operand]
  | .matrix _ rs => by rw [operand, operand, rows_eq_of_tolerance h none rs]
  | .sequence _ es => by rw [operand, operand, items_eq_of_tolerance h es []]

theorem items_eq_of_tolerance (h : c.zeroTolerance = c'.zeroTolerance) :
    ∀ (es : List Expr) (stack : List Operand), items c stack es = items c' stack es
  | [], _ => by rw [items, items]
  | e :: es, stack => by
      by_cases he : ∃ l op, e = .operator l op
      · obtain ⟨l, op, rfl⟩ := he
        rw [items, items, operator_eq_of_tolerance h]
        simp only [items_eq_of_tolerance h es]
      · have he' : ∀ l op, e ≠ .operator l op := fun l op h => he ⟨l, op, h⟩
        rw [items_operand c stack es he', items_operand c' stack es he', operand_eq_of_tolerance h e]
        simp only [items_eq_of_tolerance h es]

theorem rows_eq_of_tolerance (h : c.zeroTolerance = c'.zeroTolerance) :
    ∀ (first : Option Nat) (rs : List (List Expr)), rows c first rs = rows c' first rs
  | _, [] => by rw [rows, rows]
  | first, row :: rs => by
      rw [rows, rows, cells_eq_of_tolerance h row]
      simp only [rows_eq_of_tolerance h _ rs]

theorem cells_eq_of_tolerance (h : c.zeroTolerance = c'.zeroTolerance) :
    ∀ es : List Expr, cells c es = cells c' es
  | [] => by rw [cells, cells]
  | e :: es => by rw [cells, cells, operand_eq_of_tolerance h e, cells_eq_of_tolerance h es]

end

end Eval

theorem Statement.evaluate_eq_of_tolerance (h : c.zeroTolerance = c'.zeroTolerance) (s : Statement)
    (env : Env (Value Float)) : s.evaluate c env = s.evaluate c' env := by
  have hanswer : Eval.answer c s = Eval.answer c' s := by
    rw [Eval.answer, Eval.answer, Eval.operand_eq_of_tolerance h]
  rw [evaluate, evaluate, hanswer]

theorem Attempt.round_eq_of_tolerance (h : c.zeroTolerance = c'.zeroTolerance) (a : Attempt)
    (env : Env (Value Float)) : a.round c env = a.round c' env := by
  cases a with
  | unparsed line e => rfl
  | parsed s => rw [round, round, s.evaluate_eq_of_tolerance h]

theorem Statement.InTurn.of_tolerance (h : c.zeroTolerance = c'.zeroTolerance) {env env' : Env (Value Float)}
    {ss : List Statement} {events : List Event} (hturn : InTurn c env ss events env') :
    InTurn c' env ss events env' := by
  induction hturn with
  | done env => exact .done env
  | output ha _ ih =>
      rw [Statement.evaluate_eq_of_tolerance h] at ha ih
      exact .output ha ih
  | failed he _ ih =>
      rw [Statement.evaluate_eq_of_tolerance h] at he ih
      exact .failed he ih

end

/-! ### The first failure -/

variable {c : Context} {env env' : Env (Value Float)}

/-- The attempts `as` start with the statements `ss`, which have outputs and lead from one environment to another
one.  In that the attempt `a` fails, as the round `r` says. -/
structure FirstFailure (c : Context) (env : Env (Value Float)) (as : List Attempt) (ss : List Statement)
    (outputs : List Output) (env' : Env (Value Float)) (a : Attempt) (r : Round) (later : List Attempt) :
    Prop where
  attempts : as = ss.map .parsed ++ a :: later
  inTurn : Statement.InTurn c env ss (outputs.map .output) env'
  /-- A failure changes nothing. -/
  round : a.round c env' = (.ok r, env')
  fails : r.fails = true

/-- **No attempt fails, or there is a first one that does.** -/
theorem exists_firstFailure {as : List Attempt} (has : ∀ a ∈ as, a.Reported c) (env : Env (Value Float)) :
    (∃ (ss : List Statement) (outputs : List Output) (env' : Env (Value Float)),
      as = ss.map .parsed ∧ Statement.InTurn c env ss (outputs.map .output) env') ∨
    ∃ ss outputs env' a r later, FirstFailure c env as ss outputs env' a r later := by
  induction as generalizing env with
  | nil => exact .inl ⟨[], [], env, rfl, .done env⟩
  | cons a as ih =>
      obtain ⟨r, hr⟩ := has a List.mem_cons_self env
      rcases Attempt.round_cases hr with ⟨hnone, henv⟩ | ⟨s, x, rfl, hresult, -, -⟩
      · refine .inr ⟨[], [], env, a, r, as, rfl, .done env, Prod.ext hr henv, ?_⟩
        rw [Round.fails, hnone]
        rfl
      · have hrest := ih (fun a ha => has a (List.mem_cons_of_mem _ ha)) (s.evaluate c env).env
        rcases hrest with ⟨ss, outputs, env', rfl, hturn⟩ | ⟨ss, outputs, env', a, r, later, h⟩
        · exact .inl ⟨s :: ss, Run.outputOf s x :: outputs, env', rfl, .output hresult hturn⟩
        · refine .inr ⟨s :: ss, Run.outputOf s x :: outputs, env', a, r, later, ?_, .output hresult h.inTurn,
            h.round, h.fails⟩
          rw [h.attempts]
          rfl

/-- A first failure is one with every context of the same tolerance. -/
theorem FirstFailure.of_tolerance {c' : Context} (h : c.zeroTolerance = c'.zeroTolerance) {as later : List Attempt}
    {ss : List Statement} {outputs : List Output} {a : Attempt} {r : Round}
    (hfirst : FirstFailure c env as ss outputs env' a r later) :
    FirstFailure c' env as ss outputs env' a r later :=
  ⟨hfirst.attempts, hfirst.inTurn.of_tolerance h, (a.round_eq_of_tolerance h env').symm.trans hfirst.round,
    hfirst.fails⟩

namespace Run

/-- A run `front` comes before another one: it has these outputs and no diagnostics. -/
structure IsBehind (run : Run) (outputs : List Output) (back : Run) : Prop where
  outputs : run.outputs = outputs ++ back.outputs
  diagnostics : run.diagnostics = back.diagnostics
  env : run.env = back.env
  abort : run.abort = back.abort

/-- **Statements without a failure**, whether or not a run is to stop: it goes on behind them. -/
theorem ofAttempts_append_of_inTurn {ss : List Statement} {outputs : List Output}
    (h : Statement.InTurn c env ss (outputs.map .output) env') (as : List Attempt) :
    (ofAttempts c (ss.map .parsed ++ as) env).IsBehind outputs (ofAttempts c as env') := by
  generalize hevents : outputs.map Event.output = events at h
  induction h generalizing outputs with
  | done env =>
      obtain rfl := List.map_eq_nil_iff.1 hevents
      exact ⟨rfl, rfl, rfl, rfl⟩
  | @output env env' s ss x events hx _ ih =>
      obtain ⟨o, outputs, rfl, ho, hrest⟩ := List.map_eq_cons_iff.1 hevents
      obtain rfl := Event.output.inj ho
      have hround : (Attempt.parsed s).round c env =
          (.ok ⟨(s.evaluate c env).assigned, .output (outputOf s x)⟩, (s.evaluate c env).env) := by
        rw [Attempt.round, hx]
      have hrun : ofAttempts c (.parsed s :: (ss.map .parsed ++ as)) env =
          (ofAttempts c (ss.map .parsed ++ as) (s.evaluate c env).env).push
            ⟨(s.evaluate c env).assigned, .output (outputOf s x)⟩ := by
        rw [ofAttempts, hround]
        exact if_neg (by simp [Round.fails, Event.output?])
      obtain ⟨houtputs, hdiagnostics, henv, habort⟩ := ih hrest
      rw [List.map_cons, List.cons_append, hrun]
      refine ⟨?_, ?_, henv, habort⟩
      · rw [outputs_push, houtputs]
        rfl
      · rw [diagnostics_push, hdiagnostics]
        rfl
  | failed he _ ih =>
      obtain ⟨o, outputs, -, ho, -⟩ := List.map_eq_cons_iff.1 hevents
      cases ho

end Run

/-- What has failed has a diagnostic, and no output. -/
theorem Round.exists_diagnostic {r : Round} (h : r.fails = true) :
    r.event.output? = none ∧ ∃ d, r.event.diagnostic? = some d := by
  have hnone : r.event.output? = none := by simpa [fails] using h
  have hone := r.event.length_toList
  rw [hnone] at hone
  refine ⟨hnone, Option.isSome_iff_exists.1 ?_⟩
  cases hd : r.event.diagnostic? with
  | none =>
      rw [hd] at hone
      cases hone
  | some d => rfl

namespace FirstFailure

variable {as later : List Attempt} {ss : List Statement} {outputs : List Output} {a : Attempt} {r : Round}
  {d : Diagnostic}

/-- A run that goes on has a diagnostic where the first failure is, and then what comes behind it. -/
theorem ofAttempts_going (h : FirstFailure c env as ss outputs env' a r later) (hcrash : c.crashOnError = false)
    (hd : r.event.diagnostic? = some d) :
    (Run.ofAttempts c as env).outputs = outputs ++ (Run.ofAttempts c later env').outputs ∧
      (Run.ofAttempts c as env).diagnostics = d :: (Run.ofAttempts c later env').diagnostics := by
  have hround : (a.round c env').1 = .ok r := by rw [h.round]
  have hbehind : (a.round c env').2 = env' := by rw [h.round]
  have hback := Run.ofAttempts_append_of_inTurn h.inTurn (a :: later)
  rw [Run.ofAttempts_cons hcrash hround, hbehind] at hback
  rw [h.attempts, hback.outputs, hback.diagnostics, Run.outputs_push, Run.diagnostics_push,
    (Round.exists_diagnostic h.fails).1, hd]
  exact ⟨rfl, rfl⟩

/-- A run that is to stop ends at the first failure. -/
theorem ofAttempts_stopping (h : FirstFailure c env as ss outputs env' a r later) (hcrash : c.crashOnError = true)
    (hd : r.event.diagnostic? = some d) :
    (Run.ofAttempts c as env).outputs = outputs ∧ (Run.ofAttempts c as env).diagnostics = [d] ∧
      (Run.ofAttempts c as env).env = env' ∧ (Run.ofAttempts c as env).abort = none := by
  have hstop : Run.ofAttempts c (a :: later) env' = (Run.done env').push r := by
    rw [Run.ofAttempts, h.round]
    exact if_pos (by rw [hcrash, h.fails, Bool.and_self])
  have hback := Run.ofAttempts_append_of_inTurn h.inTurn (a :: later)
  rw [hstop] at hback
  rw [h.attempts, hback.outputs, hback.diagnostics, hback.env, hback.abort, Run.outputs_push, Run.diagnostics_push,
    (Round.exists_diagnostic h.fails).1, hd]
  exact ⟨List.append_nil _, rfl, rfl, rfl⟩

end FirstFailure

/-! ### Sessions -/

namespace Session

/-- The session, which is to stop at failures, or not to. -/
def stopping (s : Session) (stops : Bool) : Session :=
  { s with context := { s.context with crashOnError := stops } }

/-- The report `part` is about what is in front of the first failure of a text, which has the diagnostic `d`, and
`env'` is the environment there.  The report `whole` goes on with what comes behind. -/
structure LeftAt (s : Session) (source : String) (whole part : Report) (d : Diagnostic)
    (env' : Env (Value Float)) : Prop where
  /-- A text that cannot be cut into tokens fails as a whole. -/
  lexical (e : LexError) (h : lex source = .error e) :
    d = .ofLex e ∧ part.outputs = [] ∧ whole.outputs = [] ∧ env' = s.env
  /-- Else the statements in front of the first attempt that fails have the outputs of `part`, and leave the
  environment. -/
  failing (ts : Tokens) (h : lex source = .ok ts) :
    ∃ ss a r later,
      FirstFailure s.context s.env (Parse.attempts ts.finish ts.list) ss part.outputs env' a r later ∧
        r.event.diagnostic? = some d ∧
        whole.outputs = part.outputs ++ (Run.ofAttempts (s.stopping false).context later env').outputs

/-- A text that can be cut into tokens is reported, and what its attempts give is the report. -/
theorem exists_run_of_lex_ok {s : Session} (htolerance : 0 ≤ s.context.zeroTolerance) {source : String}
    {ts : Tokens} (hlex : lex source = .ok ts) :
    ∃ run, Run.ofAttempts s.context (Parse.attempts ts.finish ts.list) s.env = run ∧
      (s.run source).result = .ok ⟨run.outputs, run.diagnostics⟩ ∧ (s.run source).session.env = run.env := by
  obtain ⟨report, hreport⟩ := exists_report htolerance source
  rw [run_of_lex_ok hlex, Run.ofTokens_eq_ofAttempts] at hreport ⊢
  refine ⟨_, rfl, ?_, rfl⟩
  rw [reportOf] at hreport ⊢
  split at hreport
  · cases hreport
  · rfl

/-- **A session that stops at failures has what is in front of the first one**, if the tolerance is at least zero.
If nothing fails, it has the same report and environment as a session that goes on.  Else its only diagnostic is
the first one of the other session, its outputs are those of the statements in front of the failure, and its
environment is what these leave. -/
theorem run_stopping (s : Session) (htolerance : 0 ≤ s.context.zeroTolerance) (source : String) :
    ∃ whole part,
      ((s.stopping false).run source).result = .ok whole ∧ ((s.stopping true).run source).result = .ok part ∧
      (whole.diagnostics = [] → part = whole ∧
        ((s.stopping true).run source).session.env = ((s.stopping false).run source).session.env) ∧
      ∀ d ds, whole.diagnostics = d :: ds → part.diagnostics = [d] ∧
        s.LeftAt source whole part d ((s.stopping true).run source).session.env := by
  cases hlex : lex source with
  | error e =>
      rw [run_of_lex_error hlex, run_of_lex_error hlex]
      refine ⟨_, _, rfl, rfl, fun hnone => absurd hnone (List.cons_ne_nil _ _), fun d ds hd => ?_⟩
      obtain ⟨rfl, -⟩ := List.cons.inj hd
      refine ⟨rfl, ⟨fun e' he' => ?_, fun ts hts => by rw [hlex] at hts; cases hts⟩⟩
      obtain rfl := Except.error.inj (hlex.symm.trans he')
      exact ⟨rfl, rfl, rfl, rfl⟩
  | ok ts =>
      have hsame (stops : Bool) : s.context.zeroTolerance = (s.stopping stops).context.zeroTolerance := rfl
      have hreported : ∀ a ∈ Parse.attempts ts.finish ts.list, a.Reported s.context := fun a ha =>
        Parse.reported_of_mem_attempts htolerance hlex ha
      obtain ⟨going, hgoing, hwhole, hleft⟩ := exists_run_of_lex_ok (s := s.stopping false) htolerance hlex
      obtain ⟨stopped, hstopped, hpart, hleft'⟩ := exists_run_of_lex_ok (s := s.stopping true) htolerance hlex
      refine ⟨_, _, hwhole, hpart, ?_⟩
      rw [hleft, hleft']
      rcases exists_firstFailure hreported s.env with
        ⟨ss, outputs, env', has, hturn⟩ | ⟨ss, outputs, env', a, r, later, h⟩
      · -- both runs go through all statements
        have hrun (stops : Bool) := Run.ofAttempts_append_of_inTurn (hturn.of_tolerance (hsame stops)) []
        simp only [List.append_nil, ← has] at hrun
        have hall := hgoing ▸ hrun false
        have hall' := hstopped ▸ hrun true
        rw [hall.outputs, hall.diagnostics, hall.env, hall'.outputs, hall'.diagnostics, hall'.env]
        exact ⟨fun _ => ⟨rfl, rfl⟩, fun d ds hd => absurd hd (List.cons_ne_nil d ds).symm⟩
      · obtain ⟨d, hd⟩ := (Round.exists_diagnostic h.fails).2
        obtain ⟨houtputs, hdiagnostics⟩ := hgoing ▸ (h.of_tolerance (hsame false)).ofAttempts_going rfl hd
        obtain ⟨houtputs', hdiagnostics', henv, -⟩ :=
          hstopped ▸ (h.of_tolerance (hsame true)).ofAttempts_stopping rfl hd
        rw [houtputs, hdiagnostics, houtputs', hdiagnostics', henv]
        refine ⟨fun hnone => absurd hnone (List.cons_ne_nil _ _), fun d' ds hd' => ?_⟩
        obtain ⟨rfl, -⟩ := List.cons.inj hd'
        refine ⟨rfl, ⟨fun e he => ?_, fun ts' hts => ?_⟩⟩
        · rw [hlex] at he
          cases he
        · obtain rfl := Except.ok.inj (hlex.symm.trans hts)
          exact ⟨ss, a, r, later, h, hd, rfl⟩

theorem run_stopping_literalYielded :
    0 ≤ (start .usual).context.zeroTolerance ∧ ∃ whole part,
      (((start .usual).stopping false).run literalYielded).result = .ok whole ∧
      (((start .usual).stopping true).run literalYielded).result = .ok part ∧
      (whole.diagnostics = [] → part = whole ∧
        (((start .usual).stopping true).run literalYielded).session.env =
          (((start .usual).stopping false).run literalYielded).session.env) ∧
      ∀ d ds, whole.diagnostics = d :: ds → part.diagnostics = [d] ∧
        (start .usual).LeftAt literalYielded whole part d
          (((start .usual).stopping true).run literalYielded).session.env := by
  have htolerance : 0 ≤ (start .usual).context.zeroTolerance := by decide
  exact ⟨htolerance, run_stopping (start .usual) htolerance literalYielded⟩

end Session

end MatrixCalc
