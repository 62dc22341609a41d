/-
**The layout of a source text does not matter.**

Parsing, evaluating and reporting read the kinds of tokens, their texts and their lines, and nothing else of
where they stand.  So texts with the same tokens on the same lines are as good as one another, and among them
is the text in which single spaces stand between the tokens, whatever blanks and comments the other one has.

Main definitions:

* `MatrixCalc.Tokens.contents` — the kinds, texts and lines of tokens.

Main results:

* `MatrixCalc.Session.run_eq_of_down_eq` — texts with the same tokens on the same lines give the same;
* `MatrixCalc.Session.run_spaced` — **a text may be written with single spaces between its tokens**.
-/

import MatrixCalc.Proofs.Session.Joined
import MatrixCalc.Proofs.Session.Totality
import MatrixCalc.Proofs.Token.Spacing

set_option autoImplicit false

namespace MatrixCalc

/-- The kinds, the texts and the lines of tokens, and the line on which the text ends. -/
def Tokens.contents (ts : Tokens) : List (Token.Kind × String × Nat) × Nat :=
  (ts.list.map fun t => (t.kind, t.text, t.position.line), ts.finish.line)

/-- Tokens with only their lines have the contents of the tokens. -/
theorem Tokens.contents_down_zero (ts : Tokens) : (ts.down 0).contents = ts.contents := by
  simp only [contents, down, List.map_map]
  rfl

theorem Tokens.contents_of_down_eq {ts ts' : Tokens} (h : ts'.down 0 = ts.down 0) :
    ts'.contents = ts.contents := by
  rw [← contents_down_zero, h, contents_down_zero]

/-! ### Runs -/

theorem Assignment.down_zero : Assignment.down 0 = id := by
  funext a
  simp [down]

theorem Event.journal_down_zero (e : Event) : (e.down 0).journal = e.journal := by
  cases e with
  | output o => rfl
  | unparsed line e => simp [down, journal, ParseError.code, ParseError.down]
  | failed line e => simp [down, journal]

theorem Round.journal_down_zero (r : Round) : (r.down 0).journal = r.journal := by
  simp only [journal, down, Assignment.down_zero, List.map_id, Event.journal_down_zero]

namespace Run

variable {r r' : Run}

/-- What is written down about a run does not depend on more than its lines. -/
theorem journal_of_down_eq (h : r.down 0 = r'.down 0) :
    r.rounds.flatMap Round.journal = r'.rounds.flatMap Round.journal := by
  have hdown (r : Run) : (r.down 0).rounds.flatMap Round.journal = r.rounds.flatMap Round.journal := by
    simp only [down, List.flatMap_map, Round.journal_down_zero]
  rw [← hdown r, h, hdown]

end Run

namespace Session

/-- **Texts with the same tokens on the same lines are as good as one another.** -/
theorem run_eq_of_down_eq (s : Session) {source source' : String} {ts ts' : Tokens} (h : lex source = .ok ts)
    (h' : lex source' = .ok ts') (hdown : ts'.down 0 = ts.down 0) : s.run source' = s.run source := by
  have hattempts := Parse.map_attempts_eq_of_down_eq hdown
  have hrun : (Run.ofAttempts s.context (Parse.attempts ts'.finish ts'.list) s.env).down 0 =
      (Run.ofAttempts s.context (Parse.attempts ts.finish ts.list) s.env).down 0 := by
    rw [← Run.ofAttempts_down, ← Run.ofAttempts_down, hattempts]
  obtain ⟨houtputs, hdiagnostics, henv⟩ := Run.reports_of_down_eq hrun
  have habort := congrArg Run.abort hrun
  have hjournal := Run.journal_of_down_eq hrun
  rw [Output.down_zero, List.map_id] at houtputs
  rw [Diagnostic.down_zero, List.map_id] at hdiagnostics
  simp only [Run.down] at habort
  rw [run_of_lex_ok h, run_of_lex_ok h', Run.ofTokens_eq_ofAttempts, Run.ofTokens_eq_ofAttempts]
  simp only [reportOf, houtputs, hdiagnostics, henv, habort, hjournal]

/-- **A text may be written with single spaces between its tokens.**  These are of the same kinds, have the same
texts and are on the same lines as before, whether or not the end of the text is counted as one.  If the tolerance
is at least zero, there is a report about the text, and the other one has the same report and leaves the same
session. -/
theorem run_spaced (s : Session) {source : String} {ts : Tokens} (h : lex source = .ok ts) (withEnd : Bool) :
    (∃ ts', lex (ts.spaced withEnd) = .ok ts' ∧ ts'.contents = ts.contents) ∧
      (0 ≤ s.context.zeroTolerance →
        ∃ report, (s.run source).result = .ok report ∧ s.run (ts.spaced withEnd) = s.run source) := by
  obtain ⟨ts', h', hdown⟩ := lex_spaced h withEnd
  refine ⟨⟨ts', h', Tokens.contents_of_down_eq hdown⟩, fun htolerance => ?_⟩
  obtain ⟨report, hreport⟩ := exists_report htolerance source
  exact ⟨report, hreport, run_eq_of_down_eq s h h' hdown⟩

/-- A text with blanks, a comment and a line end of two characters. -/
def literalUnspaced : String := "x=[1_0e+2,\t5]% a row\r\n-x"

theorem lex_literalUnspaced :
    ∃ ts, lex literalUnspaced = .ok ts ∧ ts.spaced true = "x = [ 1_0e+2 , 5 ] \r\n - x " := by
  have hspaced : (lex literalUnspaced).map (fun ts => ts.spaced true) =
      .ok "x = [ 1_0e+2 , 5 ] \r\n - x " := by
    set_option maxRecDepth 100000 in cbv
  exact exists_lex_of_map_eq_ok hspaced

theorem run_spaced_literalUnspaced :
    0 ≤ (start .usual).context.zeroTolerance ∧ ∃ ts, lex literalUnspaced = .ok ts ∧
      (∃ ts', lex "x = [ 1_0e+2 , 5 ] \r\n - x " = .ok ts' ∧ ts'.contents = ts.contents) ∧
      ∃ report, ((start .usual).run literalUnspaced).result = .ok report ∧
        (start .usual).run "x = [ 1_0e+2 , 5 ] \r\n - x " = (start .usual).run literalUnspaced := by
  have htolerance : 0 ≤ (start .usual).context.zeroTolerance := by decide
  obtain ⟨ts, hlex, hspaced⟩ := lex_literalUnspaced
  obtain ⟨hcontents, hrun⟩ := run_spaced (start .usual) hlex true
  rw [hspaced] at hcontents hrun
  exact ⟨htolerance, ts, hlex, hcontents, hrun htolerance⟩

end Session

end MatrixCalc
