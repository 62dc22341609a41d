/-
**Checking scripts.**

A script is run from the start with the tolerance that it asks for, and what it leaves is compared with
what it expects: the number of failures, and the values of variables, written on one line without
blanks.  A variable without a value counts as `undefined`.

Main definitions:

* `MatrixCalc.Script.Mismatch` — an expectation that does not hold;
* `MatrixCalc.Script.Check` — what has become of a script;
* `MatrixCalc.Script.check` — runs a script and compares;
* `MatrixCalc.Script.Check.text` — what is printed about it.
-/

import MatrixCalc.Script.Remark
import MatrixCalc.Session

set_option autoImplicit false

namespace MatrixCalc

namespace Script

/-- A text as expectations compare it. -/
def normalize (s : String) : String := String.ofList (Text.withoutBlanks s.toList)

/-- What is expected of a variable that must not have a value. -/
def undefinedText : String := "undefined"

/-- An expectation that does not hold. -/
inductive Mismatch where
  /-- The number of failures is another. -/
  | errors (expected actual : Nat)
  /-- The value of a variable is another. -/
  | value (name expected actual : String)
  deriving DecidableEq, Repr

/-- The line about an expectation that does not hold. -/
def Mismatch.text : Mismatch → String
  | errors e a =>
      "ASSERT FAIL: expected errors = " ++ toString e ++ ", got " ++ toString a
  | value name e a => "ASSERT FAIL: expected " ++ name ++ " = " ++ e ++ ", got " ++ a

/-- Why a script cannot be checked. -/
inductive CheckError where
  /-- One of its remarks cannot be used. -/
  | unreadable (e : RemarkError)
  /-- Its tolerance is negative. -/
  | tolerance (e : ToleranceError)
  /-- It has come to an end before its time. -/
  | failure (e : Failure)

/-- What has become of a script. -/
structure Check where
  /-- What went wrong. -/
  diagnostics : List Diagnostic
  /-- The variables that it leaves. -/
  allVariables : List (String × Value Float)
  /-- The expectations that do not hold. -/
  mismatches : List Mismatch

/-- Whether every expectation holds. -/
def Check.passed (c : Check) : Bool := c.mismatches.isEmpty

/-- A variable as expectations compare it. -/
def actualText (env : Env (Value Float)) (name : String) : String :=
  match env.get? name with
  | none => undefinedText
  | some v => normalize v.compact

/-- The mismatch in the number of failures, if there is one. -/
def errorsMismatch? (expected : Option Nat) (actual : Nat) : Option Mismatch :=
  expected.bind fun e => if actual = e then none else some (.errors e actual)

/-- The mismatches in the values of variables. -/
def valueMismatches (expected : Bindings String) (env : Env (Value Float)) : List Mismatch :=
  expected.entries.filterMap fun p =>
    let actual := actualText env p.1
    if actual = p.2 then none else some (.value p.1 p.2 actual)

/-- Runs a script and compares what it leaves with what it expects. -/
def check (source : String) : Except CheckError Check := do
  let e ← (Expectations.ofSource source).mapError .unreadable
  let c ← (Context.make e.tolerance false false).mapError .tolerance
  let x := (Session.start c).run source
  let r ← x.result.mapError .failure
  pure {
    diagnostics := r.diagnostics
    allVariables := x.session.allVariables
    mismatches := (errorsMismatch? e.errors r.diagnostics.length).toList ++
      valueMismatches e.values x.session.env }

/-- The variables that a script leaves, between braces. -/
def variablesText (vs : List (String × Value Float)) : String :=
  "\x7b" ++ String.intercalate ", "
    (vs.map fun p => Text.quoted p.1 ++ ": " ++ Text.quoted p.2.compact) ++ "\x7d"

/-- What is printed about the failures of a script. -/
def diagnosticLines : List Diagnostic → List String
  | [] => ["No errors."]
  | ds => "Errors:" :: ds.map fun d => "- " ++ d.text

/-- Lines of text, each with its end. -/
def unlines (ls : List String) : String := String.join (ls.map fun l => l ++ "\n")

/-- The line that starts what is printed about a script. -/
def heading (path : String) : String := "===== Evaluation of " ++ path

/-- What is printed about a script. -/
def Check.text (path : String) (c : Check) : String :=
  unlines ([heading path] ++ diagnosticLines c.diagnostics ++
    ["Final environment:", "    " ++ variablesText c.allVariables] ++ c.mismatches.map Mismatch.text ++
    ["ASSERTIONS: " ++ (if c.passed then "PASS" else "FAIL"), ""])

/-- What is printed about a script that is not there. -/
def missingText (path : String) : String := unlines [heading path, "ERROR: file not found", ""]

/-- What is printed about a script file, and whether every expectation holds; a file that is not there
meets none. -/
def report (path : String) (contents : Option String) : Except CheckError (Bool × String) :=
  match contents with
  | none => .ok (false, missingText path)
  | some source =>
      let source := String.ofList (Text.unifyNewlines source.toList)
      (check source).map fun c => (c.passed, c.text path)

end Script

end MatrixCalc
