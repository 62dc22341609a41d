/-
**What the command does.**

The command evaluates a text, runs a script, or goes on line by line with what is typed.  All that it
prints is determined by its arguments, by the contents of the script and by the lines that are typed;
so this module gives it as data, and printing it is left to the outermost layer.

Main definitions:

* `MatrixCalc.CommandLine.Print` — a piece of text on one of the two outputs;
* `MatrixCalc.CommandLine.Transcript` — all that a run of the command prints, and its exit code;
* `MatrixCalc.CommandLine.Abort` — why a run of the command has no exit code;
* `MatrixCalc.CommandLine.debugText` — the tokens and the parsed statements of a text;
* `MatrixCalc.CommandLine.runEval`, `MatrixCalc.CommandLine.runFile` — evaluating a text, running a script;
* `MatrixCalc.CommandLine.Reply`, `MatrixCalc.CommandLine.reply` — typed lines;
* `MatrixCalc.CommandLine.run` — the whole command.
-/

import MatrixCalc.CommandLine.Arguments
import MatrixCalc.CommandLine.Path
import MatrixCalc.Expr.Printer
import MatrixCalc.Session
import MatrixCalc.Text.Lines
import MatrixCalc.Text.Utf8

set_option autoImplicit false

namespace MatrixCalc

namespace CommandLine

/-! ### What is printed -/

/-- A piece of text that is printed. -/
inductive Print where
  /-- On the standard output. -/
  | out (text : String)
  /-- On the standard error output. -/
  | err (text : String)
  deriving DecidableEq, Repr

/-- A line on the standard output. -/
def outLine (s : String) : Print := .out (s ++ "\n")

/-- A line on the standard error output. -/
def errLine (s : String) : Print := .err (s ++ "\n")

/-- All that a run of the command prints, and its exit code. -/
structure Transcript where
  /-- What is printed, in order. -/
  prints : List Print
  /-- The exit code. -/
  code : Nat

/-- The text on the standard output. -/
def Transcript.out (t : Transcript) : String :=
  String.join (t.prints.filterMap fun
    | .out s => some s
    | .err _ => none)

/-- The text on the standard error output. -/
def Transcript.err (t : Transcript) : String :=
  String.join (t.prints.filterMap fun
    | .err s => some s
    | .out _ => none)

/-- Why a run of the command comes to an end before its time. -/
inductive Abort where
  /-- A statement has no value, in a way that is not reported. -/
  | failure (e : Failure)
  /-- The script is a directory. -/
  | directory (path : Path)
  /-- The path of the script is longer than it can be. -/
  | longName (path : Path)
  /-- The option for the tolerance was given without a number. -/
  | noTolerance

/-- What is said about a run that comes to an end before its time. -/
def Abort.message : Abort → String
  | failure e => e.message
  | directory p => "[Errno 21] Is a directory: " ++ Text.quoted p.text
  | longName p => "[Errno 36] File name too long: " ++ Text.quoted p.text
  | noTolerance => "'<' not supported between instances of 'list' and 'int'"

/-- The exit code of a report: zero if nothing went wrong. -/
def exitCode (r : Report) : Nat := if r.ok then 0 else 1

/-! ### Running a text -/

/-- The lines about a parse error in the debug output. -/
def debugError : Parse.SourceError → String
  | .lex e => "[debug] lex error: " ++ e.message
  | .parse e => "[debug] parse error: " ++ e.code ++ ": " ++ e.message

/-- The tokens of a text and its statements up to the first that cannot be parsed. -/
def debugText (source : String) : List Print :=
  match Parse.tokens source with
  | .error e => [outLine (debugError e)]
  | .ok ts =>
      let r := Parse.statements ts.finish ts.list
      [outLine "[debug] tokens:", outLine ts.dump] ++
        r.1.map (fun s => outLine ("[debug] " ++ s.text)) ++
        (r.2.map fun e => outLine (debugError (.parse e))).toList

/-- What is printed before a text is run. -/
def before (c : Choices) (source : String) : List Print := if c.debug then debugText source else []

/-- The journal, if it is asked for. -/
def journalPrints (c : Choices) (js : List Journal) : List Print :=
  if c.verbose then js.map fun j => errLine j.text else []

/-- The results that are shown. -/
def resultPrints (s : Session) (r : Report) : List Print := (s.printable r).map outLine

/-- The diagnostics of a text that was typed or given as an argument. -/
def errorPrints (r : Report) : List Print := r.diagnostics.map fun d => errLine ("Error: " ++ d.text)

/-- A text that has been run: the session behind it, the report, and what is printed on the way. -/
structure Ran where
  session : Session
  report : Report
  /-- What is printed. -/
  prints : List Print

/-- Runs a text, unless something ends the run that is not reported. -/
def runText (c : Choices) (s : Session) (source : String) : Except Failure Ran :=
  let x := s.run source
  x.result.map fun r => ⟨x.session, r, before c source ++ journalPrints c x.journal⟩

/-- Runs a text, and prints its results and what went wrong. -/
def runShown (c : Choices) (s : Session) (source : String) : Except Failure Ran :=
  (runText c s source).map fun r =>
    { r with prints := r.prints ++ resultPrints r.session r.report ++ errorPrints r.report }

/-- Evaluates a text. -/
def runEval (c : Choices) (s : Session) (source : String) : Except Failure Transcript :=
  (runShown c s source).map fun r => ⟨r.prints, exitCode r.report⟩

/-! ### Running a script -/

/-- What is printed about a script that is not there. -/
def missing (path : String) : Transcript := ⟨[outLine ("ERROR: file not found: " ++ path)], 1⟩

/-- The text of a script file. -/
def scriptText (bytes : List UInt8) : String :=
  String.ofList (Text.unifyNewlines (Text.decodeUtf8 bytes))

/-- The diagnostics of a script. -/
def scriptErrors : List Diagnostic → List Print
  | [] => []
  | ds => outLine "\nErrors:" :: ds.map fun d => outLine ("  - " ++ d.text)

/-- The variables that a script leaves. -/
def scriptVariables (s : Session) : List Print :=
  outLine "\nFinal environment:" :: s.allVariables.map fun p => outLine (p.1 ++ " = " ++ p.2.text)

/-- Runs a script. -/
def runScript (c : Choices) (s : Session) (path source : String) : Except Failure Transcript :=
  (runText c s source).map fun r =>
    ⟨r.prints ++ [outLine ("=== Results for " ++ path ++ " ===")] ++
      resultPrints r.session r.report ++ scriptErrors r.report.diagnostics ++
      scriptVariables r.session, exitCode r.report⟩

/-- Runs what is at the path of the script. -/
def runFile (c : Choices) (s : Session) (path : String) : Entry → Except Abort Transcript
  | .missing => .ok (missing path)
  | .longName => .error (.longName (.ofText path))
  | .directory => .error (.directory (.ofText path))
  | .file bytes => (runScript c s path (scriptText bytes)).mapError .failure

/-! ### Typed lines -/

/-- The version of the calculator. -/
def version : String := "0.0"

/-- What is printed before a line is typed. -/
def prompt : Print := .out "> "

/-- What is printed first. -/
def greeting : Print := outLine ("\nConVector v" ++ version)

/-- What is printed last. -/
def farewell : Print := outLine "Goodbye!"

/-- The word that ends the dialogue. -/
def exitWord : String := "exit"

/-- What follows a typed line. -/
inductive Next where
  /-- Another line. -/
  | line (s : Session)
  /-- Nothing: the command ends with an exit code. -/
  | leave (code : Nat)

/-- The answer to a typed line. -/
structure Reply where
  /-- What is printed. -/
  prints : List Print
  /-- What follows. -/
  next : Next

/-- The answer to a line, or to the end of the input. -/
def reply (c : Choices) (s : Session) : Option String → Except Failure Reply
  | none => .ok ⟨[outLine "", farewell], .leave 0⟩
  | some line =>
      let word := Text.trim line.toList
      if word = exitWord.toList then .ok ⟨[farewell], .leave 0⟩
      else if word.isEmpty then .ok ⟨[], .line s⟩
      else (runShown c s line).map fun r =>
        ⟨r.prints, if s.context.crashOnError && !r.report.ok then .leave 1 else .line r.session⟩

/-- The dialogue over some lines. -/
def dialogue (c : Choices) (s : Session) : List String → Except Failure Transcript
  | [] => (reply c s none).map fun r => ⟨prompt :: r.prints, match r.next with
      | .leave code => code
      | .line _ => 0⟩
  | line :: lines => (reply c s (some line)).bind fun r => match r.next with
      | .leave code => .ok ⟨prompt :: r.prints, code⟩
      | .line s => (dialogue c s lines).map fun t => ⟨prompt :: r.prints ++ t.prints, t.code⟩

/-! ### The whole command -/

/-- What is printed to say how the command is used. -/
def helpText : String :=
  "usage: " ++ commandName ++ " [options] [file]\n\noptions:\n" ++
    String.join (OptionName.all.map fun o =>
      "  " ++ String.intercalate ", " o.spellings ++ (if o.takesValue then " VALUE" else "") ++ "\n")

/-- The exit code of a command whose arguments cannot be used. -/
def usageCode : Nat := 2

/-- The summary of a run of the test scripts, of which there are none. -/
def testSummary : Transcript := ⟨[outLine "===== Summary: 0/0 tests passed ====="], 0⟩

/-- What is to be done. -/
inductive Task where
  /-- To print something and leave. -/
  | print (t : Transcript)
  /-- To evaluate a text. -/
  | eval (c : Choices) (s : Session) (source : String)
  /-- To run a script. -/
  | file (c : Choices) (s : Session) (path : String)
  /-- To go on with typed lines. -/
  | dialogue (c : Choices) (s : Session)

/-- To say that the arguments cannot be used. -/
def Task.refuse (e : UsageError) : Task := .print ⟨[errLine e.message], usageCode⟩

/-- What the choices ask for, in a context. -/
def Task.ofContext (c : Choices) (context : Context) : Task :=
  let s := Session.start context
  if c.tests then .print testSummary
  else match c.eval with
    | some source => .eval c s source
    | none => match c.file with
      | none => .dialogue c s
      | some path => if path = "" then .dialogue c s else .file c s path

/-- What the choices ask for. -/
def Task.ofChoices (c : Choices) : Except Abort Task :=
  match c.tolerance with
  | none => .error .noTolerance
  | some x => match Context.make x c.crashOnError true with
    | .ok context => .ok (.ofContext c context)
    | .error (.negative x) => .ok (.refuse (.negativeTolerance x))

/-- What the arguments ask for. -/
def Task.ofArguments (arguments : List String) : Except Abort Task :=
  match parse arguments with
  | .error e => .ok (.refuse e)
  | .ok .help => .ok (.print ⟨[.out helpText], 0⟩)
  | .ok (.run c) => Task.ofChoices c

/-- What a task makes the command print, given what there is at each path and what is typed. -/
def Task.run (look : String → Entry) (input : String) : Task → Except Abort Transcript
  | .print t => .ok t
  | .eval c s source => (runEval c s source).mapError .failure
  | .file c s path => runFile c s path (look path)
  | .dialogue c s => ((CommandLine.dialogue c s (Text.inputLines input)).mapError .failure).map fun t =>
      { t with prints := greeting :: t.prints }

/-- What the command prints, given its arguments, what there is at each path and what is typed. -/
def run (arguments : List String) (look : String → Entry) (input : String) : Except Abort Transcript :=
  (Task.ofArguments arguments).bind (Task.run look input)

end CommandLine

end MatrixCalc
