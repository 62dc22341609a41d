/-
**Sessions.**

A session runs one source text after the other in one environment, and reports for each text what its
statements have given and which of them failed.  A text that cannot be cut into tokens changes nothing
and is reported as one failure.

Main definitions:

* `MatrixCalc.Report` — the report about a text;
* `MatrixCalc.Journal` — what a session writes down as it goes;
* `MatrixCalc.Session` — sessions;
* `MatrixCalc.Session.run` — runs a text;
* `MatrixCalc.Output.text`, `MatrixCalc.Session.printable` — results as they are shown.
-/

import MatrixCalc.Session.Run
import MatrixCalc.Value.Display

set_option autoImplicit false

namespace MatrixCalc

/-- A result as it is shown: the value, behind its name if it has one. -/
def Output.text (o : Output) : String :=
  match o.answer.name with
  | none => o.answer.value.text
  | some name => name ++ " = " ++ o.answer.value.text

/-- The report about a text. -/
structure Report where
  /-- What statements have given, in order. -/
  outputs : List Output
  /-- What went wrong, in order. -/
  diagnostics : List Diagnostic

/-- Whether nothing went wrong. -/
def Report.ok (r : Report) : Bool := r.diagnostics.isEmpty

/-- The outputs whose statements ask for them to be printed. -/
def Report.printed (r : Report) : List Output := r.outputs.filter Output.prints

/-! ### The journal -/

/-- What a session writes down. -/
inductive Journal where
  /-- A text cannot be cut into tokens. -/
  | lexError (e : LexError)
  /-- A statement cannot be parsed. -/
  | parseError (line : Int) (code : String)
  /-- A statement has no value. -/
  | evalError (line : Int) (code : String)
  /-- An assignment was carried out. -/
  | assigned (a : Assignment)

/-- The line that is written down. -/
def Journal.text : Journal → String
  | lexError e =>
      "evaluation.session: lex error: " ++ e.message ++ " (line " ++ toString e.position.line ++ ")"
  | parseError line code =>
      "evaluation.session: line " ++ toString line ++ ": parse error " ++ code
  | evalError line code =>
      "evaluation.session: line " ++ toString line ++ ": eval error " ++ code
  | assigned a =>
      "evaluation.eval_expr: line " ++ toString a.line ++ ": " ++ a.name ++ " assigned"

/-- What is written down about what has become of a statement. -/
def Event.journal : Event → List Journal
  | output _ => []
  | unparsed line e => [.parseError line e.code]
  | failed line e => [.evalError line e.code]

/-- What is written down about a statement. -/
def Round.journal (r : Round) : List Journal := r.assigned.map .assigned ++ r.event.journal

/-! ### Running texts -/

/-- A session: the context, and the environment that the texts so far have left. -/
structure Session where
  context : Context
  env : Env (Value Float)

/-- What running a text gives. -/
structure Executed where
  /-- The report, or what ended the run. -/
  result : Except Failure Report
  /-- The session behind the text. -/
  session : Session
  /-- What was written down. -/
  journal : List Journal

namespace Session

/-- A session in which nothing has been run. -/
def start (c : Context) : Session := ⟨c, .empty⟩

/-- What has become of a run, as the report about it. -/
def reportOf (r : Run) : Except Failure Report :=
  match r.abort with
  | some e => .error e
  | none => .ok ⟨r.outputs, r.diagnostics⟩

/-- Runs a text. -/
def run (s : Session) (source : String) : Executed :=
  match lex source with
  | .error e => ⟨.ok ⟨[], [.ofLex e]⟩, s, [.lexError e]⟩
  | .ok ts =>
      let r := Run.ofTokens s.context ts.finish ts.list s.env
      ⟨reportOf r, { s with env := r.env }, r.rounds.flatMap Round.journal⟩

/-- The results that are shown. -/
def printable (s : Session) (r : Report) : List String :=
  if s.context.echo then r.printed.map Output.text else []

/-- All variables with their values, in increasing order of their names. -/
def allVariables (s : Session) : List (String × Value Float) := s.env.toList

end Session

end MatrixCalc
