/-
**Paths of files.**

A path is a list of names, one for each step, behind a root or not.  Empty steps and steps that stay where
they are do not count; steps upward do.  Two slashes in front are a root of their own, three or more are
the same as one.

Main definitions:

* `MatrixCalc.CommandLine.Path` — the paths;
* `MatrixCalc.CommandLine.Path.ofText`, `MatrixCalc.CommandLine.Path.text` — reading and writing them;
* `MatrixCalc.CommandLine.Entry` — what can be at a path.

Main results:

* `MatrixCalc.CommandLine.Path.moves_of_mem_steps` — every step of a path leads somewhere.
-/

set_option autoImplicit false

namespace MatrixCalc

namespace CommandLine

/-- A path. -/
structure Path where
  /-- The root, or nothing if the path starts at the current directory. -/
  root : List Char
  /-- The names on the way. -/
  steps : List (List Char)
  deriving DecidableEq, Repr

/-- What can be at a path. -/
inductive Entry where
  /-- Nothing. -/
  | missing
  /-- Nothing, since the path or a name on the way is longer than they can be. -/
  | longName
  | directory
  /-- A file of the given contents. -/
  | file (bytes : List UInt8)
  deriving DecidableEq, Repr

namespace Path

/-- The parts of a text between slashes. -/
def split : List Char → List (List Char)
  | [] => [[]]
  | c :: cs =>
      if c = '/' then [] :: split cs
      else match split cs with
        | part :: parts => (c :: part) :: parts
        | [] => [[c]]

/-- Whether a step leads somewhere. -/
def moves (step : List Char) : Bool := step != [] && step != ['.']

/-- The root that a text starts with. -/
def rootOf : List Char → List Char
  | '/' :: '/' :: '/' :: _ => ['/']
  | '/' :: '/' :: _ => ['/', '/']
  | '/' :: _ => ['/']
  | _ => []

/-- The path that a text gives. -/
def ofText (s : String) : Path := ⟨rootOf s.toList, (split s.toList).filter moves⟩

/-- Every step of a path leads somewhere. -/
theorem moves_of_mem_steps {s : String} {step : List Char} (h : step ∈ (ofText s).steps) :
    moves step = true :=
  (List.mem_filter.1 h).2

/-- The text of a path; that of the current directory is a point. -/
def text (p : Path) : String :=
  if p.root.isEmpty && p.steps.isEmpty then "."
  else String.ofList p.root ++ String.intercalate "/" (p.steps.map String.ofList)

/-- The most bytes that a name can have. -/
def nameLimit : Nat := 255

/-- Whether a name is longer than names can be. -/
def isLongName (step : List Char) : Bool := decide (nameLimit < (String.ofList step).utf8ByteSize)

/-- The most bytes that the text of a path can have. -/
def textLimit : Nat := 4095

/-- Whether a path is longer than paths can be. -/
def isLong (p : Path) : Bool := decide (textLimit < p.text.utf8ByteSize)

end Path

end CommandLine

end MatrixCalc
