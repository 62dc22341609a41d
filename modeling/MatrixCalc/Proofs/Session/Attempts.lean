/-
**A run is a list of attempts, one after the other.**

Where a statement of a text ends does not depend on what the ones before it gave: a statement is parsed, and
read on from there, whether or not it has a value.  So a text is cut into attempts first, each a statement or
an error of the parser, and running the text is running these in order.

Main definitions:

* `MatrixCalc.Attempt` — a statement, or what was wrong where one should be;
* `MatrixCalc.Parse.attempts` — the attempts of a text;
* `MatrixCalc.Parse.Obtained` — the statements that are obtained from a source text in any way;
* `MatrixCalc.Attempt.round` — what one attempt gives;
* `MatrixCalc.Run.ofAttempts` — what attempts give one after the other.

Main results:

* `MatrixCalc.Parse.attempts_cases` — the attempts of a text start with its statements up to the first error;
* `MatrixCalc.Parse.Obtained.exists_gives` — an obtained statement is what the parser of statements gives;
* `MatrixCalc.Run.ofTokens_eq_ofAttempts` — running the tokens of a text is running its attempts.
-/

import MatrixCalc.Session
import MatrixCalc.Proofs.Parse.Locality

set_option autoImplicit false

namespace MatrixCalc

/-- A statement, or what was wrong where one should be and the line where that is. -/
inductive Attempt where
  | parsed (s : Statement)
  | unparsed (line : Int) (e : ParseError)

/-- The statement, if it could be parsed. -/
def Attempt.statement? : Attempt → Option Statement
  | parsed s => some s
  | unparsed _ _ => none

namespace Parse

/-! ### Cutting a text into attempts -/

/-- Behind the first token of a statement there are fewer tokens. -/
theorem length_lt_of_skipSeparators {t : Token} {ts rest : List Token}
    (h : skipSeparators ts = t :: rest) : rest.length < ts.length := by
  have hle := length_skipSeparators_le ts
  rw [h, List.length_cons] at hle
  exact hle

theorem length_recover_lt_of_skipSeparators {t : Token} {ts rest : List Token}
    (h : skipSeparators ts = t :: rest) : (recover (t :: rest)).2.length < ts.length := by
  have hle := length_skipSeparators_le ts
  rw [h] at hle
  exact Nat.lt_of_lt_of_le (length_recover_lt t rest) hle

/-- The attempts of a text that ends at `finish`; after an error reading goes on behind the failed
statement. -/
def attempts (finish : Position) (ts : List Token) : List Attempt :=
  match hs : skipSeparators ts with
  | [] => []
  | t :: rest =>
      match statement finish (t :: rest) with
      | .error e _ =>
          have := length_recover_lt_of_skipSeparators hs
          .unparsed t.position.line e :: attempts finish (recover (t :: rest)).2
      | .ok s rest' hlt =>
          have := Nat.lt_of_lt_of_le hlt (Nat.succ_le_of_lt (length_lt_of_skipSeparators hs))
          .parsed s :: attempts finish rest'
termination_by ts.length

variable {finish : Position} {ts : List Token}

theorem attempts_of_nil (h : skipSeparators ts = []) : attempts finish ts = [] := by
  rw [attempts]
  split
  · rfl
  · next hs => simp [h] at hs

theorem attempts_of_error {t : Token} {rest stop : List Token} {e : ParseError}
    (h : skipSeparators ts = t :: rest) (he : statement finish (t :: rest) = .error e stop) :
    attempts finish ts = .unparsed t.position.line e :: attempts finish (recover (t :: rest)).2 := by
  rw [attempts]
  split
  · next hs => simp [h] at hs
  · next hs =>
      obtain ⟨rfl, rfl⟩ := List.cons_eq_cons.1 (h.symm.trans hs)
      simp only [he]

theorem attempts_of_ok {t : Token} {rest rest' : List Token} {s : Statement} {hlt}
    (h : skipSeparators ts = t :: rest) (he : statement finish (t :: rest) = .ok s rest' hlt) :
    attempts finish ts = .parsed s :: attempts finish rest' := by
  rw [attempts]
  split
  · next hs => simp [h] at hs
  · next hs =>
      obtain ⟨rfl, rfl⟩ := List.cons_eq_cons.1 (h.symm.trans hs)
      simp only [he]

theorem statements_of_nil (h : skipSeparators ts = []) : statements finish ts = ([], none) := by
  rw [statements]
  split
  · rfl
  · next hs => simp [h] at hs

theorem statements_of_error {t : Token} {rest stop : List Token} {e : ParseError}
    (h : skipSeparators ts = t :: rest) (he : statement finish (t :: rest) = .error e stop) :
    statements finish ts = ([], some e) := by
  rw [statements]
  split
  · next hs => simp [h] at hs
  · next hs =>
      obtain ⟨rfl, rfl⟩ := List.cons_eq_cons.1 (h.symm.trans hs)
      simp only [he]

theorem statements_of_ok {t : Token} {rest rest' : List Token} {s : Statement} {hlt}
    (h : skipSeparators ts = t :: rest) (he : statement finish (t :: rest) = .ok s rest' hlt) :
    statements finish ts = (s :: (statements finish rest').1, (statements finish rest').2) := by
  rw [statements]
  split
  · next hs => simp [h] at hs
  · next hs =>
      obtain ⟨rfl, rfl⟩ := List.cons_eq_cons.1 (h.symm.trans hs)
      simp only [he]

/-- **The attempts of a text start with its statements up to the first error.**  If there is an error, it is the
attempt behind them; else there are no other attempts. -/
theorem attempts_cases (finish : Position) (ts : List Token) :
    (∃ ss, statements finish ts = (ss, none) ∧ attempts finish ts = ss.map .parsed) ∨
    ∃ ss e t rest stop later, statements finish ts = (ss, some e) ∧
      statement finish (t :: rest) = .error e stop ∧
      attempts finish ts = ss.map .parsed ++ .unparsed t.position.line e :: later := by
  induction ts using statements.induct finish with
  | case1 ts hs => exact .inl ⟨[], statements_of_nil hs, attempts_of_nil hs⟩
  | case2 ts t rest hs e stop he =>
      exact .inr ⟨[], e, t, rest, stop, _, statements_of_error hs he, he, attempts_of_error hs he⟩
  | case3 ts t rest hs s rest' hlt he ih =>
      rw [statements_of_ok hs he, attempts_of_ok hs he]
      rcases ih with ⟨ss, hss, has⟩ | ⟨ss, e, t', rest'', stop, later, hss, hfails, has⟩
      · exact .inl ⟨s :: ss, by rw [hss], by rw [has, List.map_cons]⟩
      · refine .inr ⟨s :: ss, e, t', rest'', stop, later, by rw [hss], hfails, ?_⟩
        rw [has, List.map_cons, List.cons_append]

/-- The statements up to the first error are among the attempts. -/
theorem mem_attempts_of_mem_statements {s : Statement} (h : s ∈ (statements finish ts).1) :
    .parsed s ∈ attempts finish ts := by
  rcases attempts_cases finish ts with ⟨ss, hss, has⟩ | ⟨ss, e, t, rest, stop, later, hss, -, has⟩
  · rw [hss] at h
    rw [has]
    exact List.mem_map_of_mem h
  · rw [hss] at h
    rw [has]
    exact List.mem_append_left _ (List.mem_map_of_mem h)

/-- An attempt that could be parsed is what the parser of statements gives somewhere. -/
theorem exists_gives_of_mem_attempts {s : Statement} (h : .parsed s ∈ attempts finish ts) :
    ∃ start rest, (statement finish start).Gives s rest := by
  induction ts using attempts.induct finish with
  | case1 ts hs =>
      rw [attempts_of_nil hs] at h
      simp at h
  | case2 ts t rest hs e stop he _ ih =>
      rw [attempts_of_error hs he] at h
      exact ih (by simpa using h)
  | case3 ts t rest hs s' rest' hlt he _ ih =>
      rw [attempts_of_ok hs he, List.mem_cons] at h
      rcases h with h | h
      · obtain rfl : s = s' := by simpa using h
        exact ⟨t :: rest, rest', by simp [he]⟩
      · exact ih h

theorem statementsOf_of_lex_ok {src : String} {ts : Tokens} (h : lex src = .ok ts) :
    statementsOf src = ((statements ts.finish ts.list).1, (statements ts.finish ts.list).2.map .parse) := by
  have htokens : tokens src = .ok ts := by
    rw [tokens, h]
    rfl
  rw [statementsOf, htokens]

theorem statementsOf_of_source_ok {src : String} {ss : List Statement} (h : source src = .ok ss) :
    statementsOf src = (ss, none) := by
  rw [source] at h
  split at h
  · next hss =>
      cases h
      exact hss
  · cases h

theorem statementsOf_of_source_error {src : String} {e : SourceError} (h : source src = .error e) :
    ∃ ss, statementsOf src = (ss, some e) := by
  rw [source] at h
  split at h
  · cases h
  · next hss =>
      cases h
      exact ⟨_, hss⟩

/-- A statement is obtained from a source text: it is one of the statements of a text without errors, or a
session comes to it, behind errors too. -/
def Obtained (src : String) (s : Statement) : Prop :=
  (∃ ss, source src = .ok ss ∧ s ∈ ss) ∨
    ∃ tokens, lex src = .ok tokens ∧ .parsed s ∈ attempts tokens.finish tokens.list

/-- A session comes to all statements that are obtained. -/
theorem Obtained.mem_attempts {src : String} {s : Statement} (h : Obtained src s) :
    ∃ tokens, lex src = .ok tokens ∧ .parsed s ∈ attempts tokens.finish tokens.list := by
  rcases h with ⟨ss, hss, hs⟩ | h
  · have hyields := statementsOf_of_source_ok hss
    cases hlex : lex src with
    | error e =>
        have htokens : tokens src = .error (.lex e) := by
          rw [tokens, hlex]
          rfl
        rw [statementsOf, htokens] at hyields
        cases hyields
    | ok ts =>
        rw [statementsOf_of_lex_ok hlex, Prod.mk.injEq] at hyields
        exact ⟨ts, rfl, mem_attempts_of_mem_statements (hyields.1 ▸ hs)⟩
  · exact h

/-- **An obtained statement is what the parser of statements gives somewhere.** -/
theorem Obtained.exists_gives {src : String} {s : Statement} (h : Obtained src s) :
    ∃ finish start rest, (statement finish start).Gives s rest := by
  obtain ⟨tokens, -, hs⟩ := h.mem_attempts
  exact ⟨tokens.finish, exists_gives_of_mem_attempts hs⟩

end Parse

/-! ### Running attempts -/

/-- What has become of an attempt in an environment, or what ends the run, and the environment behind it. -/
def Attempt.round (c : Context) (env : Env (Value Float)) :
    Attempt → Except Failure Round × Env (Value Float)
  | unparsed line e => (.ok ⟨[], .unparsed line e⟩, env)
  | parsed s =>
      let v := s.evaluate c env
      match v.result with
      | .ok a => (.ok ⟨v.assigned, .output (Run.outputOf s a)⟩, v.env)
      | .error (.eval e) => (.ok ⟨v.assigned, .failed s.line e⟩, v.env)
      | .error e => (.error e, v.env)

/-- Behind a statement stands the environment that its evaluation left. -/
theorem Attempt.env_round_parsed (c : Context) (env : Env (Value Float)) (s : Statement) :
    ((parsed s).round c env).2 = (s.evaluate c env).env := by
  rw [round]
  rcases (s.evaluate c env).result with (e | e | e | e) | a <;> rfl

/-- A statement that does not end the run has a value, or its error is reported. -/
theorem Attempt.round_parsed_ok {c : Context} {env : Env (Value Float)} {s : Statement} {r : Round}
    (h : ((parsed s).round c env).1 = .ok r) :
    (∃ a, (s.evaluate c env).result = .ok a ∧
      r = ⟨(s.evaluate c env).assigned, .output (Run.outputOf s a)⟩) ∨
    ∃ e, (s.evaluate c env).result = .error (.eval e) ∧
      r = ⟨(s.evaluate c env).assigned, .failed s.line e⟩ := by
  rw [round] at h
  rcases hresult : (s.evaluate c env).result with (e | e | e | e) | a <;> simp only [hresult] at h
  · exact .inr ⟨e, rfl, (Except.ok.inj h).symm⟩
  · cases h
  · cases h
  · cases h
  · exact .inl ⟨a, rfl, (Except.ok.inj h).symm⟩

/-- Whether there is no output. -/
def Round.fails (r : Round) : Bool := r.event.output?.isNone

/-- What has become of a statement is an output or a diagnostic. -/
theorem Event.length_toList (e : Event) : e.output?.toList.length + e.diagnostic?.toList.length = 1 := by
  cases e <;> rfl

namespace Run

theorem outputs_push (r : Round) (run : Run) :
    (run.push r).outputs = r.event.output?.toList ++ run.outputs := by
  rw [outputs, rounds_push, List.filterMap_cons]
  cases r.event.output? <;> rfl

theorem diagnostics_push (r : Round) (run : Run) :
    (run.push r).diagnostics = r.event.diagnostic?.toList ++ run.diagnostics := by
  rw [diagnostics, rounds_push, List.filterMap_cons]
  cases r.event.diagnostic? <;> rfl

/-- What attempts give one after the other. -/
def ofAttempts (c : Context) : List Attempt → Env (Value Float) → Run
  | [], env => done env
  | a :: as, env =>
      match a.round c env with
      | (.error e, env') => { done env' with abort := some e }
      | (.ok r, env') =>
          if c.crashOnError && r.fails then (done env').push r else (ofAttempts c as env').push r

/-- **Running the tokens of a text is running its attempts.** -/
theorem ofTokens_eq_ofAttempts (c : Context) (finish : Position) (ts : List Token)
    (env : Env (Value Float)) :
    ofTokens c finish ts env = ofAttempts c (Parse.attempts finish ts) env := by
  induction ts using Parse.attempts.induct finish generalizing env with
  | case1 ts hs =>
      rw [Parse.attempts_of_nil hs, ofTokens, ofAttempts]
      split
      · rfl
      · next hs' => simp [hs] at hs'
  | case2 ts t rest hs e stop he _ ih =>
      rw [Parse.attempts_of_error hs he, ofTokens, ofAttempts, Attempt.round]
      split
      · next hs' => simp [hs] at hs'
      · next hs' =>
          obtain ⟨rfl, rfl⟩ := List.cons_eq_cons.1 (hs.symm.trans hs')
          simp only [he, ih]
          cases c.crashOnError <;> rfl
  | case3 ts t rest hs s rest' hlt he _ ih =>
      rw [Parse.attempts_of_ok hs he, ofTokens, ofAttempts, Attempt.round]
      split
      · next hs' => simp [hs] at hs'
      · next hs' =>
          obtain ⟨rfl, rfl⟩ := List.cons_eq_cons.1 (hs.symm.trans hs')
          simp only [he, ih]
          rcases hresult : (s.evaluate c env).result with (e | e | e | e) | a
          · cases c.crashOnError <;> rfl
          · rfl
          · rfl
          · rfl
          · cases c.crashOnError <;> rfl

end Run

end MatrixCalc
