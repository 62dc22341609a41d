/-
**Where diagnostics are.**

Whatever a session reports about a source text is at a place of the text.  A text that cannot be cut into tokens is
reported at the place of the error.  A statement that cannot be parsed is reported on the line of one of its
tokens, or on the last line, and a statement without a value on the line of its first token; neither names a
column.

Main definitions:

* `MatrixCalc.Attempt.line` — the line that a diagnostic of an attempt is on.

Main results:

* `MatrixCalc.Parse.line_of_mem_attempts` — every attempt is on the line of a token, or of the end of the text;
* `MatrixCalc.Run.exists_of_mem_diagnostics` — a diagnostic of a run is on the line of an attempt;
* `MatrixCalc.Session.exists_place` — **every diagnostic is at a place of the text**.
-/

import MatrixCalc.Proofs.Session.Totality
import MatrixCalc.Proofs.Parse.Lines
import MatrixCalc.Proofs.Parse.Recovery
import MatrixCalc.Proofs.Token.Places

set_option autoImplicit false

namespace MatrixCalc

/-! ### Tokens behind statements -/

namespace Parse

variable {finish : Position} {ts : List Token}

theorem recoverFrom_suffix (d : Nat) (ts : List Token) : (recoverFrom d ts).2 <:+ ts := by
  rcases recoverFrom_append d ts with h | ⟨t, -, h⟩
  · exact ⟨_, h⟩
  · exact ⟨(recoverFrom d ts).1 ++ [t], by rw [List.append_assoc]; exact h⟩

/-- What is behind a statement is an end of its tokens. -/
theorem suffix_of_statement_gives {rest : List Token} {s : Statement} (h : (statement finish ts).Gives s rest) :
    rest <:+ ts ∧ s.line = (positionOf finish ts).line := by
  obtain ⟨e, back, prints, he, hend, rfl⟩ := statement_gives_iff.1 h
  refine ⟨?_, rfl⟩
  have hleads : Leads 0 ts 0 back := (scans ts).1.1 e back he
  obtain ⟨span, rfl⟩ := hleads.exists_append
  refine List.IsSuffix.trans ?_ (List.suffix_append span back)
  unfold statementEnd? at hend
  split at hend
  · obtain ⟨-, rfl⟩ := Prod.mk.inj (Option.some.inj hend)
    exact List.suffix_refl _
  · split at hend
    · obtain ⟨-, rfl⟩ := Prod.mk.inj (Option.some.inj hend)
      exact List.suffix_cons _ _
    · obtain ⟨-, rfl⟩ := Prod.mk.inj (Option.some.inj hend)
      exact List.suffix_cons _ _
    · cases hend

/-- An error of a statement shows where its tokens stand, or behind the last one. -/
theorem exists_suffix_of_statement_fails {stop : List Token} {e : ParseError}
    (h : (statement finish ts).Fails e stop) :
    ∃ back, back <:+ ts ∧ e.line = some ((positionOf finish back).line : Int) := by
  obtain ⟨-, front, back, rfl, -, hshows⟩ := literalStops_of_statement_fails h
  exact ⟨back, List.suffix_append front back, hshows.1⟩

end Parse

/-- The line that a diagnostic of an attempt is on. -/
def Attempt.line : Attempt → Int
  | parsed s => s.line
  | unparsed line e => e.line.getD line

namespace Parse

variable {finish : Position} {ts : List Token}

/-- **Every attempt is on the line of a token**, or of the end of the text. -/
theorem line_of_mem_attempts {a : Attempt} (h : a ∈ attempts finish ts) :
    ∃ back, back <:+ ts ∧ a.line = (positionOf finish back).line := by
  induction ts using attempts.induct finish with
  | case1 ts hs =>
      rw [attempts_of_nil hs] at h
      cases h
  | case2 ts t rest hs e stop he _ ih =>
      have hsuffix : t :: rest <:+ ts := by
        rw [← hs]
        exact List.dropWhile_suffix _
      rw [attempts_of_error hs he] at h
      rcases List.mem_cons.1 h with rfl | h
      · have hfails : (statement finish (t :: rest)).Fails e stop := by simp [he]
        obtain ⟨back, hback, hline⟩ := exists_suffix_of_statement_fails hfails
        exact ⟨back, hback.trans hsuffix, by rw [Attempt.line, hline]; rfl⟩
      · obtain ⟨back, hback, hline⟩ := ih h
        exact ⟨back, (hback.trans (recoverFrom_suffix 0 _)).trans hsuffix, hline⟩
  | case3 ts t rest hs s rest' hlt he _ ih =>
      have hsuffix : t :: rest <:+ ts := by
        rw [← hs]
        exact List.dropWhile_suffix _
      have hgives : (statement finish (t :: rest)).Gives s rest' := by simp [he]
      obtain ⟨hrest, hline⟩ := suffix_of_statement_gives hgives
      rw [attempts_of_ok hs he] at h
      rcases List.mem_cons.1 h with rfl | h
      · exact ⟨t :: rest, hsuffix, hline⟩
      · obtain ⟨back, hback, hline'⟩ := ih h
        exact ⟨back, (hback.trans hrest).trans hsuffix, hline'⟩

end Parse

namespace Run

variable {c : Context}

/-- What one attempt is reported as. -/
theorem diagnostic_of_round {a : Attempt} {env env' : Env (Value Float)} {r : Round}
    (h : a.round c env = (.ok r, env')) {d : Diagnostic} (hd : r.event.diagnostic? = some d) :
    d.line = a.line ∧ d.column = none := by
  cases a with
  | unparsed line e =>
      simp only [Attempt.round, Prod.mk.injEq, Except.ok.injEq] at h
      obtain ⟨rfl, -⟩ := h
      obtain rfl := Option.some.inj hd
      exact ⟨rfl, rfl⟩
  | parsed s =>
      simp only [Attempt.round] at h
      split at h
      · obtain ⟨rfl, -⟩ : _ ∧ _ := by simpa using h
        cases hd
      · obtain ⟨rfl, -⟩ : _ ∧ _ := by simpa using h
        obtain rfl := Option.some.inj hd
        exact ⟨rfl, rfl⟩
      · cases h

/-- **A diagnostic of a run is on the line of an attempt**, and names no column. -/
theorem exists_of_mem_diagnostics {as : List Attempt} {env : Env (Value Float)} {d : Diagnostic}
    (h : d ∈ (ofAttempts c as env).diagnostics) : ∃ a ∈ as, d.line = a.line ∧ d.column = none := by
  induction as generalizing env with
  | nil => cases h
  | cons a as ih =>
      rw [ofAttempts] at h
      rcases hround : a.round c env with ⟨e | r, env'⟩
      · rw [hround] at h
        cases h
      · have hpush : ∀ run : Run, d ∈ (run.push r).diagnostics →
            d.line = a.line ∧ d.column = none ∨ d ∈ run.diagnostics := by
          intro run hd
          rw [diagnostics_push] at hd
          rcases List.mem_append.1 hd with hd | hd
          · exact .inl (diagnostic_of_round hround (by simpa using hd))
          · exact .inr hd
        simp only [hround] at h
        split at h
        · rcases hpush _ h with hd | hd
          · exact ⟨a, List.mem_cons_self, hd⟩
          · cases hd
        · rcases hpush _ h with hd | hd
          · exact ⟨a, List.mem_cons_self, hd⟩
          · obtain ⟨a', ha', hd'⟩ := ih hd
            exact ⟨a', List.mem_cons_of_mem a ha', hd'⟩

end Run

namespace Session

/-- **Every diagnostic is at a place of the text**: on its line, and at its column if the diagnostic names one. -/
theorem exists_place {s : Session} {source : String} {report : Report}
    (h : (s.run source).result = .ok report) {d : Diagnostic} (hd : d ∈ report.diagnostics) :
    ∃ p : Position, p.IsIn source.toList ∧ d.line = p.line ∧ ∀ c ∈ d.column, c = p.column := by
  cases hlex : lex source with
  | error e =>
      rw [run_of_lex_error hlex] at h
      obtain rfl := Except.ok.inj h
      obtain rfl := List.mem_singleton.1 hd
      have hplace := isIn_of_lex_error hlex
      obtain ⟨l, -, hline, -⟩ := hplace.exists_line
      have hne : ¬ ((e.position.line : Int) = 0) := by omega
      exact ⟨e.position, hplace, if_neg hne, fun c hc => (Option.some.inj hc).symm⟩
  | ok ts =>
      rw [run_of_lex_ok hlex, Run.ofTokens_eq_ofAttempts, reportOf] at h
      split at h
      · cases h
      · obtain rfl := Except.ok.inj h
        obtain ⟨a, ha, hline, hcolumn⟩ := Run.exists_of_mem_diagnostics hd
        obtain ⟨back, hback, hplace⟩ := Parse.line_of_mem_attempts ha
        refine ⟨positionOf ts.finish back, ?_, hline.trans hplace, fun c hc => ?_⟩
        · cases back with
          | nil => exact isIn_finish hlex
          | cons t back => exact isIn_of_mem hlex (hback.subset List.mem_cons_self)
        · rw [hcolumn] at hc
          cases hc

end Session

end MatrixCalc
