/-
**Failing statements contribute nothing.**

If a session goes on after failures and its tolerance is at least zero, every attempt of a text is reported,
with an output or with a diagnostic, and nothing ends the run before the text does.  An attempt without an
output leaves the environment as it was, whatever it assigned before it failed.  So a text gives what its
statements with an output give when they alone are evaluated, in order and in the environment of the session
itself.

Main definitions:

* `MatrixCalc.Attempt.Reported` — an attempt does not end a run;
* `MatrixCalc.Attempt.FailsIn` — an attempt has no output in an environment;
* `MatrixCalc.successful` — the statements with an output;
* `MatrixCalc.Statement.replay` — evaluates statements in an environment itself;
* `MatrixCalc.Session.Isolates` — failing attempts of a text contribute nothing.

Main results:

* `MatrixCalc.Attempt.round_cases` — what an attempt can come to;
* `MatrixCalc.Run.ofAttempts_append` — attempts are run where the ones before them have come to;
* `MatrixCalc.Run.replay_ofAttempts` — running is replaying the statements with an output;
* `MatrixCalc.Session.isolates` — **failing statements contribute nothing**.
-/

import MatrixCalc.Proofs.Evaluation.Failures
import MatrixCalc.Proofs.Evaluation.Scopes

set_option autoImplicit false

namespace MatrixCalc

variable {c : Context}

/-! ### Single attempts -/

namespace Attempt

/-- An attempt does not end a run. -/
def Reported (c : Context) (a : Attempt) : Prop := ∀ env, ∃ r, (a.round c env).1 = .ok r

/-- An attempt is reported in an environment, but not with an output. -/
def FailsIn (c : Context) (env : Env (Value Float)) (a : Attempt) : Prop :=
  ∃ r, (a.round c env).1 = .ok r ∧ r.fails = true

/-- **What an attempt that is reported can come to.**  It fails and changes nothing, or it is a statement
that has an output. -/
theorem round_cases {a : Attempt} {env : Env (Value Float)} {r : Round}
    (h : (a.round c env).1 = .ok r) :
    (r.event.output? = none ∧ (a.round c env).2 = env) ∨
    ∃ s x, a = .parsed s ∧ (s.evaluate c env).result = .ok x ∧ r.event = .output (Run.outputOf s x) ∧
      (a.round c env).2 = (s.evaluate c env).env := by
  cases a with
  | unparsed line e =>
      obtain rfl : _ = r := Except.ok.inj h
      exact .inl ⟨rfl, rfl⟩
  | parsed s =>
      rw [env_round_parsed]
      rcases round_parsed_ok h with ⟨x, hresult, rfl⟩ | ⟨e, hresult, rfl⟩
      · exact .inr ⟨s, x, rfl, hresult, rfl, rfl⟩
      · exact .inl ⟨rfl, Statement.env_evaluate_of_error hresult⟩

/-- An attempt that fails changes nothing. -/
theorem FailsIn.env_round {a : Attempt} {env : Env (Value Float)} (h : a.FailsIn c env) :
    (a.round c env).2 = env := by
  obtain ⟨r, hr, hfails⟩ := h
  rcases round_cases hr with ⟨-, henv⟩ | ⟨s, x, -, -, hevent, -⟩
  · exact henv
  · rw [Round.fails, hevent] at hfails
    cases hfails

end Attempt

namespace Parse

/-- An attempt of a source text is reported, unless it needs a division by zero for a tolerance that is no
number. -/
theorem round_cases_of_mem_attempts (c : Context) {source : String} {ts : Tokens}
    (hlex : lex source = .ok ts) {a : Attempt} (ha : a ∈ attempts ts.finish ts.list)
    (env : Env (Value Float)) :
    (∃ r, (a.round c env).1 = .ok r) ∨
      c.zeroTolerance.isNaN = true ∧ (a.round c env).1 = .error (.division .zeroDivision) := by
  cases a with
  | unparsed line e => exact .inl ⟨_, rfl⟩
  | parsed s =>
      have hs : Obtained source s := .inr ⟨ts, hlex, ha⟩
      rw [Attempt.round]
      rcases hs.evaluate_cases c env with ⟨x, hx⟩ | ⟨e, he, hexpected⟩
      · simp only [hx]
        exact .inl ⟨_, rfl⟩
      · simp only [he]
        cases hexpected with
        | eval h => exact .inl ⟨_, rfl⟩
        | division hnan => exact .inr ⟨hnan, rfl⟩

/-- With a tolerance of at least zero, the attempts of a source text do not end a run. -/
theorem reported_of_mem_attempts (htolerance : 0 ≤ c.zeroTolerance) {source : String} {ts : Tokens}
    (hlex : lex source = .ok ts) {a : Attempt} (ha : a ∈ attempts ts.finish ts.list) : a.Reported c := by
  intro env
  rcases round_cases_of_mem_attempts c hlex ha env with hreported | ⟨hnan, -⟩
  · exact hreported
  · rw [Decimal.isNaN_of_le htolerance] at hnan
    cases hnan

end Parse

/-! ### Runs -/

/-- The statements of the attempts `as` with an output, going by the rounds that the attempts gave. -/
def successful (as : List Attempt) (rounds : List Round) : List Statement :=
  (as.zip rounds).filterMap fun x => if x.2.fails then none else x.1.statement?

/-- Evaluates statements in an environment itself, each in what the ones before it left; gives the outputs,
or why a statement has none. -/
def Statement.replay (c : Context) : List Statement → Env (Value Float) →
    Except Failure (List Output × Env (Value Float))
  | [], env => .ok ([], env)
  | s :: ss, env =>
      match (s.evaluateInPlace c env).result with
      | .error e => .error e
      | .ok x => (replay c ss (s.evaluateInPlace c env).env).map fun r => (Run.outputOf s x :: r.1, r.2)

namespace Run

variable {as pre post : List Attempt} {env : Env (Value Float)}

theorem ofAttempts_cons (hcrash : c.crashOnError = false) {a : Attempt} {r : Round}
    (hr : (a.round c env).1 = .ok r) (as : List Attempt) :
    ofAttempts c (a :: as) env = (ofAttempts c as (a.round c env).2).push r := by
  rw [ofAttempts]
  rcases hround : a.round c env with ⟨_ | r', env'⟩
  · rw [hround] at hr
    cases hr
  · rw [hround] at hr
    obtain rfl : r' = r := Except.ok.inj hr
    simp [hcrash]

/-- **Attempts are run where the ones before them have come to.** -/
theorem ofAttempts_append (hcrash : c.crashOnError = false) (hpre : ∀ a ∈ pre, a.Reported c) :
    ofAttempts c (pre ++ post) env =
      { ofAttempts c post (ofAttempts c pre env).env with
        rounds := (ofAttempts c pre env).rounds ++
          (ofAttempts c post (ofAttempts c pre env).env).rounds } := by
  induction pre generalizing env with
  | nil => rfl
  | cons a pre ih =>
      obtain ⟨r, hr⟩ := hpre a (by simp) env
      have hrest : ∀ a ∈ pre, a.Reported c := fun a ha => hpre a (by simp [ha])
      rw [List.cons_append, ofAttempts_cons hcrash hr, ofAttempts_cons hcrash hr, ih hrest]
      rfl

/-- A run to its end: every attempt has a round, and an output or a diagnostic. -/
theorem ofAttempts_reported (hcrash : c.crashOnError = false) (has : ∀ a ∈ as, a.Reported c)
    (env : Env (Value Float)) : (ofAttempts c as env).abort = none ∧ (ofAttempts c as env).rounds.length = as.length := by
  induction as generalizing env with
  | nil => exact ⟨rfl, rfl⟩
  | cons a as ih =>
      obtain ⟨r, hr⟩ := has a (by simp) env
      obtain ⟨habort, hlength⟩ := ih (fun a ha => has a (by simp [ha])) (a.round c env).2
      rw [ofAttempts_cons hcrash hr]
      refine ⟨habort, ?_⟩
      rw [rounds_push, List.length_cons, List.length_cons, hlength]

/-- **Running is replaying the statements with an output**, by induction on the attempts: one that fails
changes nothing, one that succeeds does what it does in the environment itself. -/
theorem replay_ofAttempts (hcrash : c.crashOnError = false) (has : ∀ a ∈ as, a.Reported c)
    (env : Env (Value Float)) : Statement.replay c (successful as (ofAttempts c as env).rounds) env =
      .ok ((ofAttempts c as env).outputs, (ofAttempts c as env).env) := by
  induction as generalizing env with
  | nil => rfl
  | cons a as ih =>
      obtain ⟨r, hr⟩ := has a (by simp) env
      have hrest := ih (fun a ha => has a (by simp [ha])) (a.round c env).2
      rw [ofAttempts_cons hcrash hr]
      rcases Attempt.round_cases hr with ⟨hnone, henv⟩ | ⟨s, x, rfl, hresult, hevent, henv⟩
      · have hfails : r.fails = true := by rw [Round.fails, hnone]; rfl
        rw [henv] at hrest ⊢
        simpa [successful, outputs, hfails, hnone] using hrest
      · have hfails : r.fails = false := by rw [Round.fails, hevent]; rfl
        have hplace := Statement.evaluate_eq_evaluateInPlace hresult
        rw [henv] at hrest ⊢
        rw [hplace] at hresult hrest ⊢
        have hout : r.event.output? = some (outputOf s x) := by rw [hevent]; rfl
        simp only [successful, outputs, rounds_push, env_push, List.zip_cons_cons, List.filterMap_cons,
          hfails, hout, Attempt.statement?, Bool.false_eq_true, if_false] at hrest ⊢
        rw [Statement.replay, hresult, hrest]
        rfl

end Run

/-! ### Sessions -/

namespace Session

/-- The environment behind the attempts `pre`. -/
def envBehind (s : Session) (pre : List Attempt) : Env (Value Float) :=
  (Run.ofAttempts s.context pre s.env).env

/-- Failing attempts of a source text contribute nothing to what a session makes of the text. -/
structure Isolates (s : Session) (source : String) : Prop where
  /-- A text that cannot be cut into tokens changes nothing and is reported once. -/
  lexical : ∀ e, lex source = .error e →
    (s.run source).session = s ∧ (s.run source).result = .ok ⟨[], [.ofLex e]⟩
  /-- Any other text gives the outputs and the environment that its statements with an output give, evaluated
  one by one in the environment of the session itself. -/
  replayed : ∀ ts, lex source = .ok ts → ∃ report rounds,
    (s.run source).result = .ok report ∧
    rounds = (Run.ofTokens s.context ts.finish ts.list s.env).rounds ∧
    rounds.length = (Parse.attempts ts.finish ts.list).length ∧
    Statement.replay s.context (successful (Parse.attempts ts.finish ts.list) rounds) s.env =
      .ok (report.outputs, (s.run source).session.env)
  /-- An attempt that fails leaves the environment in which it started, and if it is a statement, nothing
  behind its own bindings has changed when it fails. -/
  unchanged : ∀ ts, lex source = .ok ts → ∀ pre a post,
    Parse.attempts ts.finish ts.list = pre ++ a :: post → a.FailsIn s.context (s.envBehind pre) →
    s.envBehind (pre ++ [a]) = s.envBehind pre ∧
      ∀ stmt, a = .parsed stmt →
        ((Eval.answer s.context stmt).run ⟨(s.envBehind pre).push, []⟩).2.env.outer =
          (s.envBehind pre).chain
  /-- An attempt that fails might as well be left out. -/
  omitted : ∀ ts, lex source = .ok ts → ∀ pre a post,
    Parse.attempts ts.finish ts.list = pre ++ a :: post → a.FailsIn s.context (s.envBehind pre) →
    (Run.ofAttempts s.context (pre ++ post) s.env).outputs =
        (Run.ofTokens s.context ts.finish ts.list s.env).outputs ∧
      s.envBehind (pre ++ post) = (s.run source).session.env

theorem run_of_lex_error {s : Session} {source : String} {e : LexError} (h : lex source = .error e) :
    s.run source = ⟨.ok ⟨[], [.ofLex e]⟩, s, [.lexError e]⟩ := by
  rw [run, h]

theorem run_of_lex_ok {s : Session} {source : String} {ts : Tokens} (h : lex source = .ok ts) :
    s.run source =
      ⟨reportOf (Run.ofTokens s.context ts.finish ts.list s.env),
        { s with env := (Run.ofTokens s.context ts.finish ts.list s.env).env },
        (Run.ofTokens s.context ts.finish ts.list s.env).rounds.flatMap Round.journal⟩ := by
  rw [run, h]

/-- **Failing statements contribute nothing**, if the session goes on after failures and its tolerance is at
least zero. -/
theorem isolates (s : Session) (hcrash : s.context.crashOnError = false)
    (htolerance : 0 ≤ s.context.zeroTolerance) (source : String) : s.Isolates source := by
  have hreported : ∀ ts, lex source = .ok ts → ∀ a ∈ Parse.attempts ts.finish ts.list,
      a.Reported s.context := fun ts hlex a ha => Parse.reported_of_mem_attempts htolerance hlex ha
  refine ⟨fun e hlex => ?_, fun ts hlex => ?_, fun ts hlex pre a post has hfails => ?_,
    fun ts hlex pre a post has hfails => ?_⟩
  · rw [run_of_lex_error hlex]
    exact ⟨rfl, rfl⟩
  · obtain ⟨habort, hlength⟩ := Run.ofAttempts_reported hcrash (hreported ts hlex) s.env
    rw [run_of_lex_ok hlex, reportOf, Run.ofTokens_eq_ofAttempts, habort]
    exact ⟨_, _, rfl, rfl, hlength, Run.replay_ofAttempts hcrash (hreported ts hlex) s.env⟩
  · have hpre : ∀ a ∈ pre, a.Reported s.context := fun a ha => hreported ts hlex a (by simp [has, ha])
    have henv := hfails.env_round
    obtain ⟨r, hr, -⟩ := hfails
    refine ⟨?_, fun stmt _ => Eval.outer_answer s.context stmt _⟩
    simp only [envBehind] at henv hr ⊢
    rw [Run.ofAttempts_append hcrash hpre, Run.ofAttempts_cons hcrash hr, henv]
    rfl
  · have hpre : ∀ a ∈ pre, a.Reported s.context := fun a ha => hreported ts hlex a (by simp [has, ha])
    have henv := hfails.env_round
    obtain ⟨r, hr, hnone⟩ := hfails
    simp only [envBehind] at henv hr ⊢
    rw [run_of_lex_ok hlex, Run.ofTokens_eq_ofAttempts, has, Run.ofAttempts_append hcrash hpre,
      Run.ofAttempts_append hcrash hpre, Run.ofAttempts_cons hcrash hr, henv]
    have hout : r.event.output? = none := by simpa [Round.fails] using hnone
    simp [Run.outputs, hout]

/-- The text `x = [y]` in a session in which nothing has been run. -/
theorem isolates_start : Context.usual.crashOnError = false ∧ 0 ≤ Context.usual.zeroTolerance ∧
    (start .usual).Isolates "x = [y]" := by
  have hcrash : Context.usual.crashOnError = false := rfl
  have htolerance : 0 ≤ Context.usual.zeroTolerance := by decide
  exact ⟨hcrash, htolerance, isolates (start .usual) hcrash htolerance "x = [y]"⟩

end Session

end MatrixCalc
