/-
**The command.**

Reads the arguments, the script and the typed lines, and prints what the library says.
-/

import MatrixCalc.CommandLine.Program

set_option autoImplicit false

namespace MatrixCalc

namespace CommandLine

/-- Prints a piece of text. -/
def Print.emit : Print → IO Unit
  | .out s => IO.print s
  | .err s => IO.eprint s

/-- Prints all of a transcript and gives its exit code. -/
def Transcript.emit (t : Transcript) : IO UInt32 := do
  t.prints.forM Print.emit
  pure t.code.toUInt32

/-- Prints a transcript, or what ended the run. -/
def emitResult : Except Abort Transcript → IO UInt32
  | .ok t => t.emit
  | .error e => do
      IO.eprintln e.message
      pure 1

/-- What is at a path. -/
def look (path : String) : IO Entry := do
  let p := Path.ofText path
  try
    let bytes ← IO.FS.readBinFile p.text
    pure (.file bytes.toList)
  catch
    | .inappropriateType none _ _ => pure .directory
    | .invalidArgument _ _ _ =>
        pure (if p.isLong || p.steps.any Path.isLongName then .longName else .missing)
    | _ => pure .missing

/-- Answers typed lines until one ends the dialogue. -/
partial def converse (c : Choices) (s : Session) : IO UInt32 := do
  prompt.emit
  (← IO.getStdout).flush
  let text ← (← IO.getStdin).getLine
  let line := if text = "" then none else some ((Text.inputLines text).headD "")
  match reply c s line with
  | .error e => emitResult (.error (.failure e))
  | .ok r => do
      r.prints.forM Print.emit
      match r.next with
      | .leave code => pure code.toUInt32
      | .line s => converse c s

/-- Does what the arguments ask for.  Typed lines are answered one by one. -/
def perform : Task → IO UInt32
  | .dialogue c s => do
      greeting.emit
      converse c s
  | .file c s path => do
      let entry ← look path
      emitResult (runFile c s path entry)
  | t => emitResult (t.run (fun _ => .missing) "")

end CommandLine

end MatrixCalc

/-- The command. -/
def main (arguments : List String) : IO UInt32 :=
  match MatrixCalc.CommandLine.Task.ofArguments arguments with
  | .error e => MatrixCalc.CommandLine.emitResult (.error e)
  | .ok t => MatrixCalc.CommandLine.perform t
