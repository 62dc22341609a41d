/-
**Running the tokens of a text.**

The statements of a text are parsed and evaluated one by one, each in the environment that the ones
before it left.  A statement that fails is reported, and the next one is taken up behind it, unless the
context asks to stop there.  A division by zero, which only a tolerance that is no number lets happen,
ends the run.

Main definitions:

* `MatrixCalc.Output` — what a statement has given;
* `MatrixCalc.Event`, `MatrixCalc.Round` — what has become of a statement;
* `MatrixCalc.Run` — what has become of a text;
* `MatrixCalc.Run.ofTokens` — runs the tokens of a text.
-/

import MatrixCalc.Evaluation.Answer
import MatrixCalc.Parse.Statements
import MatrixCalc.Session.Diagnostic

set_option autoImplicit false

namespace MatrixCalc

/-- What a statement has given. -/
structure Output where
  /-- The line the statement starts on. -/
  line : Int
  answer : Answer
  /-- Whether the statement asks for the value to be printed. -/
  prints : Bool

/-- What has become of a statement. -/
inductive Event where
  /-- It has a value. -/
  | output (o : Output)
  /-- It starts on the line `line` and could not be parsed. -/
  | unparsed (line : Int) (e : ParseError)
  /-- It starts on the line `line` and has no value. -/
  | failed (line : Int) (e : EvalError)

/-- A statement of a text: the assignments that it carried out, and what has become of it. -/
structure Round where
  assigned : List Assignment
  /-- What has become of it. -/
  event : Event

/-- What has become of a text. -/
structure Run where
  /-- Its statements. -/
  rounds : List Round
  /-- The environment behind them. -/
  env : Env (Value Float)
  /-- What ended the run, if something that is not reported did. -/
  abort : Option Failure

namespace Run

/-- The run that ends here. -/
def done (env : Env (Value Float)) : Run := ⟨[], env, none⟩

/-- The run with a statement in front. -/
def push (r : Round) (run : Run) : Run := { run with rounds := r :: run.rounds }

@[simp] theorem rounds_push (r : Round) (run : Run) : (run.push r).rounds = r :: run.rounds := rfl

@[simp] theorem env_push (r : Round) (run : Run) : (run.push r).env = run.env := rfl

@[simp] theorem abort_push (r : Round) (run : Run) : (run.push r).abort = run.abort := rfl

/-- The output of a statement. -/
def outputOf (s : Statement) (a : Answer) : Output := ⟨s.line, a, s.prints⟩

/-- Runs the tokens `ts` of a text that ends at `finish`. -/
def ofTokens (c : Context) (finish : Position) (ts : List Token) (env : Env (Value Float)) : Run :=
  match hs : Parse.skipSeparators ts with
  | [] => done env
  | t :: rest =>
      have hrest : rest.length < ts.length := by
        have h := Parse.length_skipSeparators_le ts
        simp only [hs, List.length_cons] at h
        omega
      match Parse.statement finish (t :: rest) with
      | .error e _ =>
          let r : Round := ⟨[], .unparsed t.position.line e⟩
          if c.crashOnError then (done env).push r
          else
            have : (Parse.recover (t :: rest)).2.length < ts.length := by
              have h := Parse.length_recover_lt t rest
              simp only [List.length_cons] at h
              omega
            (ofTokens c finish (Parse.recover (t :: rest)).2 env).push r
      | .ok s rest' hlt =>
          have : rest'.length < ts.length := by
            simp only [List.length_cons] at hlt
            omega
          let v := s.evaluate c env
          match v.result with
          | .ok a =>
              (ofTokens c finish rest' v.env).push ⟨v.assigned, .output (outputOf s a)⟩
          | .error (.eval e) =>
              let r : Round := ⟨v.assigned, .failed s.line e⟩
              if c.crashOnError then (done v.env).push r
              else (ofTokens c finish rest' v.env).push r
          | .error e => { done v.env with abort := some e }
termination_by ts.length

/-! ### Reports -/

end Run

/-- The output, if there is one. -/
def Event.output? : Event → Option Output
  | output o => some o
  | _ => none

/-- The diagnostic, if there is one. -/
def Event.diagnostic? : Event → Option Diagnostic
  | output _ => none
  | unparsed line e => some (.ofParse line e)
  | failed line e => some (.ofEval line e)

/-- The outputs of a run. -/
def Run.outputs (r : Run) : List Output := r.rounds.filterMap fun x => x.event.output?

/-- The diagnostics of a run. -/
def Run.diagnostics (r : Run) : List Diagnostic := r.rounds.filterMap fun x => x.event.diagnostic?

end MatrixCalc
