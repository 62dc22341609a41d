/-
**Texts that are run one after the other are as good as one text.**

A line feed ends a statement as the end of a text does.  So if texts are joined with line feeds, the statements
of the whole are those of the texts, one text behind the other, unless an error of the parser in one of them
has the next one passed over.  Each text stands further down than it does by itself, by the line ends in the
texts before it and those that join them, and so do its outputs and diagnostics.

Main definitions:

* `MatrixCalc.Run.down`, `MatrixCalc.Report.down` — what a text gives that stands further down;
* `MatrixCalc.Session.inTurn`, `MatrixCalc.Session.behind` — texts one after the other;
* `MatrixCalc.linesAbove`, `MatrixCalc.Report.joined` — the reports about them as one.

Main results:

* `MatrixCalc.Parse.attempts_seam` — the attempts of two texts that are joined;
* `MatrixCalc.Run.ofAttempts_down` — attempts further down give the same further down;
* `MatrixCalc.Session.run_seam` — two texts that are joined;
* `MatrixCalc.Session.run_intercalate` — **texts in turn are as good as one text**.
-/

import Mathlib
import MatrixCalc.Proofs.Evaluation.Lines
import MatrixCalc.Proofs.Session.Isolation

set_option autoImplicit false

namespace MatrixCalc

variable {b : Nat} {c : Context}

namespace Parse

variable {finish finish' : Position} {ts back : List Token} {u : Token}

/-! ### Statements before a line end -/

theorem skipSeparators_append_of_nil (h : skipSeparators ts = []) (back : List Token) :
    skipSeparators (ts ++ back) = skipSeparators back := by
  rw [skipSeparators, List.dropWhile_append, ← skipSeparators, h]
  rfl

theorem skipSeparators_append_of_cons {t : Token} {rest : List Token} (h : skipSeparators ts = t :: rest)
    (back : List Token) : skipSeparators (ts ++ back) = t :: (rest ++ back) := by
  rw [skipSeparators, List.dropWhile_append, ← skipSeparators, h]
  rfl

/-- The attempts of a text do not depend on the separators that it starts with. -/
theorem attempts_congr {ts' : List Token} (h : skipSeparators ts = skipSeparators ts') :
    attempts finish ts = attempts finish ts' := by
  cases hs : skipSeparators ts' with
  | nil => rw [attempts_of_nil hs, attempts_of_nil (h.trans hs)]
  | cons t rest =>
      cases he : statement finish (t :: rest) with
      | error e stop => rw [attempts_of_error hs he, attempts_of_error (h.trans hs) he]
      | ok s rest' hlt => rw [attempts_of_ok hs he, attempts_of_ok (h.trans hs) he]

/-- A statement before a line end: the line end is behind it, or it ends the statement as the end of the text
does. -/
theorem statement_append (finish' : Position) {t : Token} {rest : List Token} {s : Statement}
    (h : (statement finish (t :: ts)).Gives s rest) (hu : u.kind = .newline) (back : List Token) :
    (statement finish' (t :: (ts ++ u :: back))).Gives s (rest ++ u :: back) ∨
      rest = [] ∧ (statement finish' (t :: (ts ++ u :: back))).Gives s back := by
  rcases statement_local h with ⟨rfl, e, he, rfl⟩ | ⟨span, v, hspan, -, hlocal⟩
  · have hends : u.kind.endsExpression false = true := by rw [hu]; rfl
    have he' : (expression finish' false (t :: (ts ++ u :: back))).Gives e (u :: back) :=
      expressionFrom_append he hends
    refine .inr ⟨rfl, statement_gives_iff.2 ⟨e, u :: back, true, he', ?_, rfl⟩⟩
    simp [statementEnd?, hu]
  · have hall : t :: (ts ++ u :: back) = span ++ v :: (rest ++ u :: back) := by
      rw [← List.cons_append, hspan, List.append_assoc, List.cons_append]
    rw [hall]
    exact .inl (hlocal finish' (rest ++ u :: back))

/-- **The attempts of two texts that are joined with a line end**, if all those of the first are statements. -/
theorem attempts_seam (hparsed : ∀ line e, .unparsed line e ∉ attempts finish ts) (hu : u.kind = .newline)
    (back : List Token) :
    attempts finish' (ts ++ u :: back) = attempts finish ts ++ attempts finish' back := by
  induction ts using attempts.induct finish with
  | case1 ts hs =>
      have hskip : skipSeparators (ts ++ u :: back) = skipSeparators back := by
        rw [skipSeparators_append_of_nil hs, skipSeparators_cons, hu]
        rfl
      rw [attempts_of_nil hs, attempts_congr hskip, List.nil_append]
  | case2 ts t rest hs e stop he _ ih =>
      rw [attempts_of_error hs he] at hparsed
      exact absurd List.mem_cons_self (hparsed t.position.line e)
  | case3 ts t rest hs s rest' hlt he _ ih =>
      have hgives : (statement finish (t :: rest)).Gives s rest' := by simp [he]
      have hskip := skipSeparators_append_of_cons hs (u :: back)
      rw [attempts_of_ok hs he] at hparsed ⊢
      rcases statement_append finish' hgives hu back with h | ⟨rfl, h⟩
      · obtain ⟨_, he'⟩ := h.exists_eq_ok
        rw [attempts_of_ok hskip he', ih fun line e ha => hparsed line e (List.mem_cons_of_mem _ ha)]
        rfl
      · obtain ⟨_, he'⟩ := h.exists_eq_ok
        rw [attempts_of_ok hskip he', attempts_of_nil skipSeparators_nil]
        rfl

end Parse

/-! ### Runs further down -/

/-- The output `b` lines further down. -/
def Output.down (b : Nat) (o : Output) : Output := { o with line := o.line + b }

/-- The diagnostic `b` lines further down. -/
def Diagnostic.down (b : Nat) (d : Diagnostic) : Diagnostic := { d with line := d.line + b }

theorem Output.down_zero : Output.down 0 = id := by
  funext o
  simp [down]

theorem Diagnostic.down_zero : Diagnostic.down 0 = id := by
  funext d
  simp [down]

/-- What has become of a statement, `b` lines further down. -/
def Event.down (b : Nat) : Event → Event
  | output o => output (o.down b)
  | unparsed line e => unparsed (line + b) (e.down b)
  | failed line e => failed (line + b) e

/-- The round `b` lines further down. -/
def Round.down (b : Nat) (r : Round) : Round := ⟨r.assigned.map (Assignment.down b), r.event.down b⟩

/-- The run `b` lines further down. -/
def Run.down (b : Nat) (r : Run) : Run := { r with rounds := r.rounds.map (Round.down b) }

theorem Diagnostic.ofParse_down (line : Int) (e : ParseError) :
    ofParse (line + b) (e.down b) = (ofParse line e).down b := by
  have hline : (e.down b).line.getD (line + b) = e.line.getD line + b := by
    cases he : e.line <;> simp [ParseError.down, he]
  simp only [ofParse, hline]
  rfl

theorem Event.output?_down (e : Event) : (e.down b).output? = e.output?.map (Output.down b) := by
  cases e <;> rfl

theorem Event.diagnostic?_down (e : Event) :
    (e.down b).diagnostic? = e.diagnostic?.map (Diagnostic.down b) := by
  cases e with
  | output o => rfl
  | unparsed line e => exact congrArg some (Diagnostic.ofParse_down line e)
  | failed line e => rfl

theorem Attempt.round_down (a : Attempt) (env : Env (Value Float)) :
    (a.down b).round c env = ((a.round c env).1.map (Round.down b), (a.round c env).2) := by
  cases a with
  | unparsed line e => rfl
  | parsed s =>
      simp only [down, round, Statement.evaluate_down]
      rcases (s.evaluate c env).result with (e | e | e | e) | x <;> rfl

namespace Run

/-- **Attempts further down give the same further down.** -/
theorem ofAttempts_down (as : List Attempt) (env : Env (Value Float)) :
    ofAttempts c (as.map (Attempt.down b)) env = (ofAttempts c as env).down b := by
  induction as generalizing env with
  | nil => rfl
  | cons a as ih =>
      rw [List.map_cons, ofAttempts, ofAttempts, Attempt.round_down]
      rcases a.round c env with ⟨e | r, env'⟩
      · rfl
      · have hfails : (r.down b).fails = r.fails := by
          rw [Round.fails, Round.down, Event.output?_down, Option.isNone_map]
          rfl
        simp only [Except.map, hfails, ih]
        split <;> rfl

theorem outputs_down (r : Run) : (r.down b).outputs = r.outputs.map (Output.down b) := by
  simp only [outputs, down, List.filterMap_map, List.map_filterMap, Function.comp_def, Round.down,
    Event.output?_down]

theorem diagnostics_down (r : Run) : (r.down b).diagnostics = r.diagnostics.map (Diagnostic.down b) := by
  simp only [diagnostics, down, List.filterMap_map, List.map_filterMap, Function.comp_def, Round.down,
    Event.diagnostic?_down]

/-- Runs that are the same further down have the same reports further down, and leave the same environment. -/
theorem reports_of_down_eq {r r' : Run} (h : r.down 0 = r'.down b) :
    r.outputs = r'.outputs.map (Output.down b) ∧ r.diagnostics = r'.diagnostics.map (Diagnostic.down b) ∧
      r.env = r'.env := by
  refine ⟨?_, ?_, ?_⟩
  · rw [← outputs_down, ← h, outputs_down, Output.down_zero, List.map_id]
  · rw [← diagnostics_down, ← h, diagnostics_down, Diagnostic.down_zero, List.map_id]
  · show (r.down 0).env = (r'.down b).env
    rw [h]

theorem outputs_append (r r' : Run) :
    ({ r' with rounds := r.rounds ++ r'.rounds } : Run).outputs = r.outputs ++ r'.outputs :=
  List.filterMap_append

theorem diagnostics_append (r r' : Run) :
    ({ r' with rounds := r.rounds ++ r'.rounds } : Run).diagnostics = r.diagnostics ++ r'.diagnostics :=
  List.filterMap_append

/-- What cannot be parsed is written down. -/
theorem mem_rounds_of_unparsed (hcrash : c.crashOnError = false) {as : List Attempt}
    (has : ∀ a ∈ as, a.Reported c) {line : Int} {e : ParseError} (h : .unparsed line e ∈ as)
    (env : Env (Value Float)) : ⟨[], .unparsed line e⟩ ∈ (ofAttempts c as env).rounds := by
  induction as generalizing env with
  | nil => cases h
  | cons a as ih =>
      obtain ⟨r, hr⟩ := has a List.mem_cons_self env
      rw [ofAttempts_cons hcrash hr, rounds_push]
      rcases List.mem_cons.1 h with rfl | h
      · obtain rfl := Except.ok.inj hr
        exact List.mem_cons_self
      · exact List.mem_cons_of_mem _ (ih (fun a ha => has a (List.mem_cons_of_mem _ ha)) h _)

end Run

/-! ### Reports -/

namespace Report

/-- The report about a text that stands `b` lines further down. -/
def down (b : Nat) (r : Report) : Report :=
  ⟨r.outputs.map (Output.down b), r.diagnostics.map (Diagnostic.down b)⟩

/-- Two reports, one behind the other. -/
def append (r r' : Report) : Report := ⟨r.outputs ++ r'.outputs, r.diagnostics ++ r'.diagnostics⟩

end Report

/-- How many line ends a text has. -/
def lineEnds (source : String) : Nat :=
  match lex source with
  | .ok ts => ts.lineEnds
  | .error _ => 0

/-- How many lines are above the text number `k` of texts that are joined with line feeds: the line ends in the
texts before it, and those that join them. -/
def linesAbove (texts : List String) (k : Nat) : Nat := ((texts.take k).map lineEnds).sum + k

/-- The reports about texts as one report about the joined texts: each one as far down as its text stands. -/
def Report.joined (texts : List String) (reports : List Report) : Report :=
  (reports.mapIdx fun k r => r.down (linesAbove texts k)).foldr append ⟨[], []⟩

theorem linesAbove_cons_succ (text : String) (texts : List String) (k : Nat) :
    linesAbove (text :: texts) (k + 1) = linesAbove texts k + (lineEnds text + 1) := by
  simp only [linesAbove, List.take_succ_cons, List.map_cons, List.sum_cons]
  omega

namespace Report

theorem down_zero (r : Report) : r.down 0 = r := by
  simp [down, Output.down_zero, Diagnostic.down_zero]

theorem down_down (r : Report) (b b' : Nat) : (r.down b).down b' = r.down (b + b') := by
  simp [down, Output.down, Diagnostic.down, Function.comp_def, Int.add_assoc]

theorem joined_singleton (text : String) (r : Report) : joined [text] [r] = r := by
  have hzero : r.down (linesAbove [text] 0) = r := r.down_zero
  simp [joined, hzero, append]

theorem down_foldr_append (b : Nat) (reports : List Report) :
    (reports.foldr append ⟨[], []⟩).down b = (reports.map (down b)).foldr append ⟨[], []⟩ := by
  induction reports with
  | nil => rfl
  | cons r reports ih =>
      rw [List.map_cons, List.foldr_cons, List.foldr_cons, ← ih]
      simp only [append, down, List.map_append]

/-- The reports about a text and those behind it: these are down by the line ends of the first text and the one
that joins it. -/
theorem joined_cons (text : String) (texts : List String) (r : Report) (reports : List Report) :
    joined (text :: texts) (r :: reports) = r.append ((joined texts reports).down (lineEnds text + 1)) := by
  have hzero : r.down (linesAbove (text :: texts) 0) = r := r.down_zero
  simp only [joined, List.mapIdx_cons, hzero, linesAbove_cons_succ, List.foldr_cons, down_foldr_append]
  simp only [List.mapIdx_eq_zipIdx_map, List.map_map, Function.comp_def, down_down]

end Report

namespace Session

/-- What texts give that are run one after the other. -/
def inTurn (s : Session) : List String → List Executed
  | [] => []
  | text :: texts => s.run text :: inTurn (s.run text).session texts

/-- The session behind texts that are run one after the other. -/
def behind (s : Session) (texts : List String) : Session :=
  texts.foldl (fun s text => (s.run text).session) s

/-- A text does not change the context. -/
theorem context_run (s : Session) (source : String) : (s.run source).session.context = s.context := by
  unfold run
  split <;> rfl

/-- A text that can be cut into tokens is reported, if the session goes on after failures and its tolerance is at
least zero. -/
theorem run_eq_of_lex_ok {s : Session} (htolerance : 0 ≤ s.context.zeroTolerance)
    (hcrash : s.context.crashOnError = false) {source : String} {ts : Tokens} (h : lex source = .ok ts) :
    let r := Run.ofAttempts s.context (Parse.attempts ts.finish ts.list) s.env
    s.run source =
      ⟨.ok ⟨r.outputs, r.diagnostics⟩, { s with env := r.env }, r.rounds.flatMap Round.journal⟩ := by
  have hreported : ∀ a ∈ Parse.attempts ts.finish ts.list, a.Reported s.context := fun a ha =>
    Parse.reported_of_mem_attempts htolerance h ha
  rw [run_of_lex_ok h, reportOf, Run.ofTokens_eq_ofAttempts,
    (Run.ofAttempts_reported hcrash hreported s.env).1]

/-- **Two texts that are joined with a line feed**, if the first does not end in a carriage return and can be
parsed. -/
theorem run_seam {s : Session} (htolerance : 0 ≤ s.context.zeroTolerance)
    (hcrash : s.context.crashOnError = false) {first second : String} {ts ts' : Tokens}
    (hfirst : lex first = .ok ts) (hsecond : lex second = .ok ts')
    (hreturn : first.toList.getLast? ≠ some '\r')
    (hparsed : ∀ line code, .parseError line code ∉ (s.run first).journal) :
    ∃ report report', (s.run first).result = .ok report ∧
      ((s.run first).session.run second).result = .ok report' ∧
      (s.run (first ++ "\n" ++ second)).result = .ok (report.append (report'.down (lineEnds first + 1))) ∧
      (s.run (first ++ "\n" ++ second)).session = ((s.run first).session.run second).session := by
  obtain ⟨ts'', hjoined, hdown⟩ := lex_seam hfirst hsecond hreturn
  have hreported : ∀ a ∈ Parse.attempts ts.finish ts.list, a.Reported s.context := fun a ha =>
    Parse.reported_of_mem_attempts htolerance hfirst ha
  rw [run_eq_of_lex_ok htolerance hcrash hfirst] at hparsed ⊢
  have hparsed' : ∀ line e, .unparsed line e ∉ Parse.attempts ts.finish ts.list := by
    intro line e ha
    refine hparsed line e.code (List.mem_flatMap.2 ⟨_, Run.mem_rounds_of_unparsed hcrash hreported ha _, ?_⟩)
    exact List.mem_singleton_self _
  have hattempts : Parse.attempts (ts.seam ts'').finish (ts.seam ts'').list =
      Parse.attempts ts.finish ts.list ++ Parse.attempts ts''.finish ts''.list :=
    Parse.attempts_seam hparsed' rfl ts''.list
  have hlines : lineEnds first = ts.lineEnds := by rw [lineEnds, hfirst]
  rw [run_eq_of_lex_ok htolerance hcrash hjoined, hattempts, Run.ofAttempts_append hcrash hreported, hlines]
  dsimp only
  -- the attempts of the second text, in the environment that the first one leaves
  have hdown' := Parse.map_attempts_eq_of_down_eq hdown
  generalize Run.ofAttempts s.context (Parse.attempts ts.finish ts.list) s.env = r
  have hrun : (Run.ofAttempts s.context (Parse.attempts ts''.finish ts''.list) r.env).down 0 =
      (Run.ofAttempts s.context (Parse.attempts ts'.finish ts'.list) r.env).down (ts.lineEnds + 1) := by
    rw [← Run.ofAttempts_down, ← Run.ofAttempts_down, hdown']
  obtain ⟨houtputs, hdiagnostics, henv⟩ := Run.reports_of_down_eq hrun
  rw [@run_eq_of_lex_ok { s with env := r.env } htolerance hcrash _ _ hsecond]
  refine ⟨_, _, rfl, rfl, ?_, ?_⟩
  · rw [Run.outputs_append, Run.diagnostics_append, houtputs, hdiagnostics]
    rfl
  · rw [henv]

/-- Texts that can be cut into tokens can be so when they are joined. -/
theorem exists_lex_intercalate {texts : List String} (hlex : ∀ text ∈ texts, ∃ ts, lex text = .ok ts)
    (hreturn : ∀ text ∈ texts.dropLast, text.toList.getLast? ≠ some '\r') :
    ∃ ts, lex (String.intercalate "\n" texts) = .ok ts := by
  induction texts with
  | nil => exact ⟨_, lexFrom_nil _⟩
  | cons text texts ih =>
      cases texts with
      | nil =>
          rw [String.intercalate_singleton]
          exact hlex text List.mem_cons_self
      | cons text' texts =>
          rw [List.dropLast_cons_of_ne_nil (List.cons_ne_nil _ _)] at hreturn
          obtain ⟨ts, hts⟩ := hlex text List.mem_cons_self
          obtain ⟨ts', hts'⟩ := ih (fun x hx => hlex x (List.mem_cons_of_mem _ hx))
            fun x hx => hreturn x (List.mem_cons_of_mem _ hx)
          obtain ⟨ts'', hjoined, -⟩ := lex_seam hts hts' (hreturn text List.mem_cons_self)
          rw [String.intercalate_cons_cons]
          exact ⟨_, hjoined⟩

/-- **Running texts in turn is as good as running them joined with line feeds**, if the session goes on after
failures and its tolerance is at least zero.  Each text can be cut into tokens; all but the last do not end in a
carriage return, and no error of the parser is written down for them.  The outputs and diagnostics of a text are
further down by the line ends in the texts before it and those that join them. -/
theorem run_intercalate (s : Session) (htolerance : 0 ≤ s.context.zeroTolerance)
    (hcrash : s.context.crashOnError = false) {texts : List String} (hne : texts ≠ [])
    (hlex : ∀ text ∈ texts, ∃ ts, lex text = .ok ts)
    (hreturn : ∀ text ∈ texts.dropLast, text.toList.getLast? ≠ some '\r')
    (hparsed : ∀ x ∈ (s.inTurn texts).dropLast, ∀ line code, .parseError line code ∉ x.journal) :
    ∃ reports, (s.inTurn texts).map Executed.result = reports.map .ok ∧
      (s.run (String.intercalate "\n" texts)).result = .ok (Report.joined texts reports) ∧
      (s.run (String.intercalate "\n" texts)).session = s.behind texts := by
  induction texts generalizing s with
  | nil => exact absurd rfl hne
  | cons text texts ih =>
      obtain ⟨ts, hts⟩ := hlex text List.mem_cons_self
      cases texts with
      | nil =>
          rw [String.intercalate_singleton]
          obtain ⟨report, hreport⟩ : ∃ report, (s.run text).result = .ok report :=
            ⟨_, congrArg Executed.result (run_eq_of_lex_ok htolerance hcrash hts)⟩
          refine ⟨[report], congrArg (fun r => [r]) hreport, ?_, rfl⟩
          rw [hreport, Report.joined_singleton]
      | cons text' texts =>
          rw [List.dropLast_cons_of_ne_nil (List.cons_ne_nil _ _)] at hreturn
          have hturn : (s.run text).session.inTurn (text' :: texts) ≠ [] := List.cons_ne_nil _ _
          rw [inTurn, List.dropLast_cons_of_ne_nil hturn] at hparsed
          have hlex' : ∀ x ∈ text' :: texts, ∃ ts, lex x = .ok ts := fun x hx =>
            hlex x (List.mem_cons_of_mem _ hx)
          have hreturn' : ∀ x ∈ (text' :: texts).dropLast, x.toList.getLast? ≠ some '\r' := fun x hx =>
            hreturn x (List.mem_cons_of_mem _ hx)
          obtain ⟨ts', hts'⟩ := exists_lex_intercalate hlex' hreturn'
          obtain ⟨report, report', hresult, hresult', hjoined, hsession⟩ := run_seam htolerance hcrash hts hts'
            (hreturn text List.mem_cons_self) (hparsed _ List.mem_cons_self)
          have hcontext := context_run s text
          obtain ⟨reports, hreports, hrest, hbehind⟩ := ih (s.run text).session (hcontext ▸ htolerance)
            (hcontext ▸ hcrash)
            (List.cons_ne_nil _ _) hlex' hreturn' fun x hx => hparsed x (List.mem_cons_of_mem _ hx)
          obtain rfl : report' = _ := Except.ok.inj (hresult'.symm.trans hrest)
          rw [String.intercalate_cons_cons]
          refine ⟨report :: reports, ?_, ?_, ?_⟩
          · rw [inTurn, List.map_cons, List.map_cons, hreports, hresult]
          · rw [hjoined, Report.joined_cons]
          · rw [hsession, hbehind]
            rfl

theorem exists_lex_of_isOk {source : String} (h : (lex source).isOk = true) : ∃ ts, lex source = .ok ts := by
  cases hlex : lex source with
  | ok ts => exact ⟨ts, rfl⟩
  | error e =>
      rw [hlex] at h
      cases h

/-- Texts with a line end and a comment at the first seam, and with an open parenthesis in the last text. -/
def literalInTurn : List String := ["a = []\n%", "b = a", "(c"]

example : (List.range 3).map (linesAbove literalInTurn) = [0, 2, 3] := by
  set_option maxRecDepth 100000 in cbv

theorem exists_lex_of_mem_literalInTurn : ∀ text ∈ literalInTurn, ∃ ts, lex text = .ok ts := by
  have hall : literalInTurn.all (fun text => (lex text).isOk) = true := by
    set_option maxRecDepth 100000 in cbv
  exact fun text htext => exists_lex_of_isOk (List.all_eq_true.1 hall text htext)

theorem journal_inTurn_literalInTurn :
    ((start .usual).inTurn literalInTurn).dropLast.map Executed.journal =
      [[.assigned ⟨1, "a"⟩], [.assigned ⟨1, "b"⟩]] := by
  set_option maxRecDepth 100000 in cbv

theorem run_intercalate_literalInTurn :
    0 ≤ (start .usual).context.zeroTolerance ∧ (start .usual).context.crashOnError = false ∧
      literalInTurn ≠ [] ∧ (∀ text ∈ literalInTurn, ∃ ts, lex text = .ok ts) ∧
      (∀ text ∈ literalInTurn.dropLast, text.toList.getLast? ≠ some '\r') ∧
      (∀ x ∈ ((start .usual).inTurn literalInTurn).dropLast, ∀ line code,
        .parseError line code ∉ x.journal) ∧
      ∃ reports, ((start .usual).inTurn literalInTurn).map Executed.result = reports.map .ok ∧
        ((start .usual).run (String.intercalate "\n" literalInTurn)).result =
          .ok (Report.joined literalInTurn reports) ∧
        ((start .usual).run (String.intercalate "\n" literalInTurn)).session =
          (start .usual).behind literalInTurn := by
  have htolerance : 0 ≤ (start .usual).context.zeroTolerance := by decide
  have hne : literalInTurn ≠ [] := List.cons_ne_nil _ _
  have hreturn : ∀ text ∈ literalInTurn.dropLast, text.toList.getLast? ≠ some '\r' := by decide
  have hparsed : ∀ x ∈ ((start .usual).inTurn literalInTurn).dropLast, ∀ line code,
      .parseError line code ∉ x.journal := by
    intro x hx line code hmem
    have hjournal := List.mem_map_of_mem (f := Executed.journal) hx
    rw [journal_inTurn_literalInTurn] at hjournal
    rcases List.mem_pair.1 hjournal with hj | hj <;> simp [hj] at hmem
  exact ⟨htolerance, rfl, hne, exists_lex_of_mem_literalInTurn, hreturn, hparsed,
    run_intercalate _ htolerance rfl hne exists_lex_of_mem_literalInTurn hreturn hparsed⟩

end Session

end MatrixCalc
