/-
**A session runs what the parser yields.**

The parser yields the statements of a text up to the first error.  A session takes a text apart once more, and
it evaluates each statement before it parses the next one.  It comes to the same statements: each is evaluated
in the environment that the ones before it leave, and gives an output or a diagnostic.  If the parser ends with
an error, the session reports this error next, before it goes on behind it.

Main definitions:

* `MatrixCalc.Statement.InTurn` — what becomes of statements that are evaluated one after the other;
* `MatrixCalc.Session.events` — what becomes of the statements of a text;
* `MatrixCalc.Session.RunsYielded` — a session runs the statements that the parser yields.

Main results:

* `MatrixCalc.Run.inTurn_ofAttempts` — statements as attempts are evaluated one after the other;
* `MatrixCalc.ParseError.exists_line_of_statement_fails` — the error of a statement has a line;
* `MatrixCalc.Session.runs_yielded` — **a session runs what the parser yields**.
-/

import MatrixCalc.Proofs.Parse.Recovery
import MatrixCalc.Proofs.Session.Joined

set_option autoImplicit false

namespace MatrixCalc

variable {c : Context}

/-! ### Statements in turn -/

/-- Statements are evaluated one after the other from one environment to another, each in the environment that
the ones before it leave.  Each gives an output or fails with an error. -/
inductive Statement.InTurn (c : Context) :
    Env (Value Float) → List Statement → List Event → Env (Value Float) → Prop where
  | done (env : Env (Value Float)) : InTurn c env [] [] env
  | output {env env' : Env (Value Float)} {s : Statement} {ss : List Statement} {a : Answer}
      {events : List Event} (ha : (s.evaluate c env).result = .ok a)
      (h : InTurn c (s.evaluate c env).env ss events env') :
      InTurn c env (s :: ss) (.output ⟨s.line, a, s.prints⟩ :: events) env'
  | failed {env env' : Env (Value Float)} {s : Statement} {ss : List Statement} {e : EvalError}
      {events : List Event} (he : (s.evaluate c env).result = .error (.eval e))
      (h : InTurn c (s.evaluate c env).env ss events env') :
      InTurn c env (s :: ss) (.failed s.line e :: events) env'

/-- No statement in turn is reported as one that cannot be parsed. -/
theorem Statement.InTurn.ne_unparsed {env env' : Env (Value Float)} {ss : List Statement}
    {events : List Event} (h : InTurn c env ss events env') (line : Int) (e : ParseError) :
    .unparsed line e ∉ events := by
  induction h with
  | done env => exact List.not_mem_nil
  | output _ _ ih | failed _ _ ih => simpa using ih

/-- **Statements as attempts are evaluated one after the other**, if none of them ends the run. -/
theorem Run.inTurn_ofAttempts (hcrash : c.crashOnError = false) {ss : List Statement}
    (hss : ∀ s ∈ ss, (Attempt.parsed s).Reported c) (env : Env (Value Float)) :
    Statement.InTurn c env ss ((ofAttempts c (ss.map .parsed) env).rounds.map Round.event)
      (ofAttempts c (ss.map .parsed) env).env := by
  induction ss generalizing env with
  | nil => exact .done env
  | cons s ss ih =>
      obtain ⟨r, hr⟩ := hss s List.mem_cons_self env
      have hrest := ih (fun s' hs' => hss s' (List.mem_cons_of_mem s hs')) (s.evaluate c env).env
      rw [List.map_cons, ofAttempts_cons hcrash hr, Attempt.env_round_parsed]
      rcases Attempt.round_parsed_ok hr with ⟨a, hresult, rfl⟩ | ⟨e, hresult, rfl⟩
      · exact .output hresult hrest
      · exact .failed hresult hrest

/-! ### The attempts of a text that the parser yields -/

/-- The error of a statement has a line. -/
theorem ParseError.exists_line_of_statement_fails {finish : Position} {ts stop : List Token} {e : ParseError}
    (h : Parse.statement finish ts = .error e stop) : ∃ line, e.line = some line := by
  have hfails : (Parse.statement finish ts).Fails e stop := by simp [h]
  obtain ⟨-, front, back, -, -, hshows⟩ := Parse.literalStops_of_statement_fails hfails
  exact ⟨_, hshows.1⟩

namespace Parse

variable {src : String} {ts : Tokens}

/-- If the parser yields all statements, they are the attempts of the text. -/
theorem attempts_of_source_ok (hlex : lex src = .ok ts) {ss : List Statement} (h : source src = .ok ss) :
    attempts ts.finish ts.list = ss.map .parsed := by
  have hyields := statementsOf_of_source_ok h
  rw [statementsOf_of_lex_ok hlex, Prod.mk.injEq] at hyields
  rcases attempts_cases ts.finish ts.list with ⟨ss', hss, has⟩ | ⟨ss', e, t, rest, stop, later, hss, -, -⟩
  · rw [has, ← hyields.1, hss]
  · rw [hss] at hyields
    cases hyields.2

/-- If the parser ends with an error, the attempts are the statements that it yields, then the error, and what
comes behind it. -/
theorem exists_attempts_of_source_error (hlex : lex src = .ok ts) {e : ParseError}
    (h : source src = .error (.parse e)) :
    ∃ ss start line later, statementsOf src = (ss, some (.parse e)) ∧ e.line = some line ∧
      attempts ts.finish ts.list = ss.map .parsed ++ .unparsed start e :: later := by
  obtain ⟨ss, hss⟩ := statementsOf_of_source_error h
  have hyields := hss
  rw [statementsOf_of_lex_ok hlex, Prod.mk.injEq] at hyields
  rcases attempts_cases ts.finish ts.list with ⟨ss', hss', -⟩ | ⟨ss', e', t, rest, stop, later, hss', hfails, has⟩
  · rw [hss'] at hyields
    cases hyields.2
  · rw [hss'] at hyields
    obtain ⟨rfl, he⟩ := hyields
    obtain rfl : e' = e := SourceError.parse.inj (Option.some.inj he)
    obtain ⟨line, hline⟩ := ParseError.exists_line_of_statement_fails hfails
    exact ⟨ss', t.position.line, line, later, hss, hline, has⟩

end Parse

/-! ### Sessions -/

/-- The report about some events. -/
def Report.ofEvents (events : List Event) : Report :=
  ⟨events.filterMap Event.output?, events.filterMap Event.diagnostic?⟩

namespace Session

/-- What becomes of the statements of a text, in their order. -/
def events (s : Session) (source : String) : List Event :=
  match lex source with
  | .error _ => []
  | .ok ts => (Run.ofTokens s.context ts.finish ts.list s.env).rounds.map Round.event

/-- A session runs the statements that the parser yields for a source text. -/
structure RunsYielded (s : Session) (source : String) : Prop where
  /-- The text is reported, and the report is about what becomes of its statements. -/
  reported : (s.run source).result = .ok (Report.ofEvents (s.events source))
  /-- If the parser yields all statements, these are evaluated one after the other, and nothing else. -/
  parsed (ss : List Statement) (h : Parse.source source = .ok ss) :
    Statement.InTurn s.context s.env ss (s.events source) (s.run source).session.env
  /-- If the parser ends with an error, the statements that it yields before are evaluated one after the other,
  and what comes next is that error.  Its report is the first one of the parser, and has the line, the code and the
  message of the error. -/
  unparsed (e : ParseError) (h : Parse.source source = .error (.parse e)) :
    ∃ ss before env' start line later, Parse.statementsOf source = (ss, some (.parse e)) ∧
      Statement.InTurn s.context s.env ss before env' ∧
      s.events source = before ++ .unparsed start e :: later ∧ (∀ l e', .unparsed l e' ∉ before) ∧
      e.line = some line ∧ (Event.unparsed start e).diagnostic? = some ⟨line, e.code, e.message, none⟩

variable {s : Session} {source : String} {ts : Tokens}

theorem events_of_lex_ok (h : lex source = .ok ts) :
    s.events source =
      (Run.ofAttempts s.context (Parse.attempts ts.finish ts.list) s.env).rounds.map Round.event := by
  rw [events, h, ← Run.ofTokens_eq_ofAttempts]

/-- **A session runs what the parser yields**, if it goes on after failures, its tolerance is at least zero and the
text can be cut into tokens. -/
theorem runs_yielded (s : Session) (hcrash : s.context.crashOnError = false)
    (htolerance : 0 ≤ s.context.zeroTolerance) {source : String} {ts : Tokens} (h : lex source = .ok ts) :
    s.RunsYielded source := by
  have hreported : ∀ a ∈ Parse.attempts ts.finish ts.list, a.Reported s.context := fun a ha =>
    Parse.reported_of_mem_attempts htolerance h ha
  have hrun := run_eq_of_lex_ok htolerance hcrash h
  refine ⟨?_, fun ss hss => ?_, fun e he => ?_⟩
  · rw [hrun, events_of_lex_ok h, Report.ofEvents, List.filterMap_map, List.filterMap_map]
    rfl
  · rw [hrun, events_of_lex_ok h]
    rw [Parse.attempts_of_source_ok h hss] at hreported ⊢
    exact Run.inTurn_ofAttempts hcrash (fun x hx => hreported _ (List.mem_map_of_mem hx)) s.env
  · obtain ⟨ss, start, line, later, hss, hline, has⟩ := Parse.exists_attempts_of_source_error h he
    rw [has] at hreported
    have hpre : ∀ a ∈ ss.map Attempt.parsed, a.Reported s.context := fun a ha =>
      hreported a (List.mem_append_left _ ha)
    have hturn := Run.inTurn_ofAttempts hcrash (fun x hx => hpre _ (List.mem_map_of_mem hx)) s.env
    -- the error changes nothing, and the run goes on behind it
    have hround : ∀ env, ((Attempt.unparsed start e).round s.context env).1 = .ok ⟨[], .unparsed start e⟩ :=
      fun _ => rfl
    have hevents := events_of_lex_ok (s := s) h
    rw [has, Run.ofAttempts_append hcrash hpre, Run.ofAttempts_cons hcrash (hround _), List.map_append,
      Run.rounds_push, List.map_cons] at hevents
    refine ⟨ss, _, _, start, line, _, hss, hturn, hevents, hturn.ne_unparsed, hline, ?_⟩
    rw [Event.diagnostic?, Diagnostic.ofParse, hline, Option.getD_some]

/-- A text whose first statement has a value, whose second one has none, and whose third one cannot be parsed. -/
def literalYielded : String := "x=[]\nz\n(x"

theorem exists_lex_literalYielded : ∃ ts, lex literalYielded = .ok ts := by
  have hok : (lex literalYielded).isOk = true := by
    set_option maxRecDepth 100000 in cbv
  exact exists_lex_of_isOk hok

theorem runs_yielded_literalYielded :
    (start .usual).context.crashOnError = false ∧ 0 ≤ (start .usual).context.zeroTolerance ∧
      (∃ ts, lex literalYielded = .ok ts) ∧ (start .usual).RunsYielded literalYielded := by
  have hcrash : (start .usual).context.crashOnError = false := rfl
  have htolerance : 0 ≤ (start .usual).context.zeroTolerance := by decide
  obtain ⟨ts, hts⟩ := exists_lex_literalYielded
  exact ⟨hcrash, htolerance, ⟨ts, hts⟩, runs_yielded (start .usual) hcrash htolerance hts⟩

end Session

end MatrixCalc
