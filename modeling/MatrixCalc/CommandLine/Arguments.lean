/-
**The arguments of the command.**

Options may stand anywhere among the arguments.  A long option may be cut short as long as no other
starts with the same letters, and its value stands behind an equals sign or in the next argument; the
value of a short option may also follow it directly.  What follows a short option without a value, with
or without an equals sign between, are further short options.  Whatever cannot be an option is the script
to run: the empty text, a single dash, a negative number, and everything behind `--`.  A text with a blank
in it that starts no option is none either.

Arguments are first told apart one by one and then read from the left, so of several mistakes an
ambiguous option is reported first, and arguments that nothing takes are reported last.

Main definitions:

* `MatrixCalc.CommandLine.OptionName`, `MatrixCalc.CommandLine.table` — the options and their spellings;
* `MatrixCalc.CommandLine.Argument`, `MatrixCalc.CommandLine.classify` — what an argument is;
* `MatrixCalc.CommandLine.Choices` — what the arguments ask for;
* `MatrixCalc.CommandLine.UsageError` — what is wrong with them;
* `MatrixCalc.CommandLine.parse` — reads the arguments.
-/

import MatrixCalc.Decimal.Notation
import MatrixCalc.Decimal.Numeral

set_option autoImplicit false

namespace MatrixCalc

namespace CommandLine

/-! ### Options -/

/-- The options. -/
inductive OptionName where
  /-- Says how the command is used. -/
  | help
  /-- Evaluates the value of the option. -/
  | eval
  /-- Runs the test scripts. -/
  | tests
  /-- Sets the tolerance. -/
  | tolerance
  /-- Stops at the first failing statement. -/
  | crashOnError
  /-- Prints tokens and parsed statements. -/
  | debug
  /-- Measures times. -/
  | benchmark
  /-- Prints the journal. -/
  | verbose
  deriving DecidableEq, Repr

/-- The spellings of an option. -/
def OptionName.spellings : OptionName → List String
  | help => ["-h", "--help"]
  | eval => ["-e", "--eval"]
  | tests => ["--tests"]
  | tolerance => ["--tolerance"]
  | crashOnError => ["--crash-on-error"]
  | debug => ["--debug"]
  | benchmark => ["--benchmark"]
  | verbose => ["--verbose"]

/-- How messages name an option. -/
def OptionName.title (o : OptionName) : String := String.intercalate "/" o.spellings

/-- Whether an option has a value. -/
def OptionName.takesValue : OptionName → Bool
  | eval | tolerance => true
  | _ => false

/-- All options. -/
def OptionName.all : List OptionName :=
  [help, eval, tests, tolerance, crashOnError, debug, benchmark, verbose]

/-- All spellings with their options. -/
def table : List (String × OptionName) :=
  OptionName.all.flatMap fun o => o.spellings.map fun s => (s, o)

/-- The option of a spelling. -/
def optionOf? (spelling : String) : Option OptionName := table.lookup spelling

/-! ### Mistakes -/

/-- What is wrong with the arguments. -/
inductive UsageError where
  /-- An option is cut so short that it can be one of several. -/
  | ambiguous (argument : String) (spellings : List String)
  /-- The value of an option is missing. -/
  | missingValue (option : OptionName)
  /-- An option has a value that takes none. -/
  | unexpectedValue (option : OptionName) (value : String)
  /-- The value of an option is no number. -/
  | invalidNumber (option : OptionName) (value : String)
  /-- Some arguments are neither options nor the script. -/
  | unrecognized (arguments : List String)
  /-- The tolerance is negative. -/
  | negativeTolerance (x : Float)

/-- The name of the command. -/
def commandName : String := "convector"

/-- What is said about a mistake in the use of an option. -/
def UsageError.about (o : OptionName) (text : String) : String := "argument " ++ o.title ++ ": " ++ text

/-- What is said about a mistake. -/
def UsageError.text : UsageError → String
  | ambiguous a ss => "ambiguous option: " ++ a ++ " could match " ++ String.intercalate ", " ss
  | missingValue o => about o "expected one argument"
  | unexpectedValue o v => about o ("ignored explicit argument " ++ Text.quoted v)
  | invalidNumber o v => about o ("invalid float value: " ++ Text.quoted v)
  | unrecognized as => "unrecognized arguments: " ++ String.intercalate " " as
  | negativeTolerance x =>
      OptionName.tolerance.title ++ " must be non-negative (got " ++ Decimal.roundTrip.write x ++ ")"

/-- The line that is printed about a mistake. -/
def UsageError.message (e : UsageError) : String := commandName ++ ": error: " ++ e.text

/-! ### Telling arguments apart -/

/-- What an argument is. -/
inductive Argument where
  /-- No option. -/
  | plain (text : String)
  /-- The sign that no option follows. -/
  | separator
  /-- An option, and the value that stands in the same argument. -/
  | option (name : OptionName) (value : Option String)
  /-- Short options one behind the other: the one for help, and the characters behind it. -/
  | cluster (rest : List Char)
  /-- An option that there is not. -/
  | unknown (text : String)
  deriving DecidableEq, Repr

/-- The text of the sign that no option follows. -/
def separatorText : String := "--"

/-- Whether an argument looks like an option. -/
def Argument.isOption : Argument → Bool
  | plain _ | separator => false
  | _ => true

/-- The characters before the first equals sign and those behind it, if there is one. -/
def splitEquals : List Char → List Char × Option (List Char)
  | [] => ([], none)
  | c :: cs => if c = '=' then ([], some cs) else ((splitEquals cs).map (c :: ·) id)

/-- Whether an argument is a negative number: a minus sign and digits, with a point before the last of
them or none. -/
def isNegativeNumber : List Char → Bool
  | '-' :: cs =>
      let cs := if cs.getLast? = some '\n' then cs.dropLast else cs
      let (whole, rest) := Decimal.spanDigits cs
      match rest with
      | [] => !whole.isEmpty
      | '.' :: ds => !ds.isEmpty && ds.all Text.isDigit
      | _ => false
  | _ => false

/-- A short option with some characters behind it: its value, or other short options. -/
def Argument.ofShort (o : OptionName) (cs : List Char) : Argument :=
  if o.takesValue then .option o (some (String.ofList cs)) else .cluster cs

/-- An option with a value behind an equals sign. -/
def Argument.ofEquals (o : OptionName) (spelling value : List Char) : Argument :=
  if spelling.length = 2 ∧ value ≠ [] then .ofShort o value
  else .option o (some (String.ofList value))

/-- The options that a text may be short for, with their spellings, and what it is then. -/
def candidates (cs : List Char) : List (String × Argument) :=
  match cs with
  | '-' :: '-' :: _ =>
      let (start, value) := splitEquals cs
      (table.filter fun p => start.isPrefixOf p.1.toList).map fun p =>
        (p.1, .option p.2 (value.map String.ofList))
  | _ => table.filterMap fun p =>
      if p.1.toList = cs.take 2 then some (p.1, .ofShort p.2 (cs.drop 2)) else none

/-- The option that an argument spells out, with its value behind an equals sign if it has one. -/
def spelled? (s : String) : Option Argument :=
  match optionOf? s with
  | some o => some (.option o none)
  | none => match splitEquals s.toList with
    | (_, none) => none
    | (spelling, some value) =>
        (optionOf? (String.ofList spelling)).map fun o => .ofEquals o spelling value

/-- What an argument is that starts with a dash, spells out no option and is not short for one. -/
def unspelled (s : String) : Argument :=
  if isNegativeNumber s.toList || s.toList.contains ' ' then .plain s else .unknown s

/-- What an argument is. -/
def classify (s : String) : Except UsageError Argument :=
  match s.toList with
  | [] | ['-'] => .ok (.plain s)
  | '-' :: _ => match spelled? s with
    | some a => .ok a
    | none => match candidates s.toList with
      | [] => .ok (unspelled s)
      | [(_, a)] => .ok a
      | cs => .error (.ambiguous s (cs.map Prod.fst))
  | _ => .ok (.plain s)

/-- What the arguments are; behind the separator there are no options. -/
def classifyAll : List String → Except UsageError (List Argument)
  | [] => .ok []
  | s :: ss =>
      if s = separatorText then .ok (.separator :: ss.map .plain)
      else (classify s).bind fun a => (classifyAll ss).map (a :: ·)

/-! ### Reading arguments -/

/-- What the arguments ask for. -/
structure Choices where
  /-- The script to run. -/
  file : Option String
  /-- The text to evaluate. -/
  eval : Option String
  /-- The tolerance, unless the option was given without a number. -/
  tolerance : Option Float
  /-- Whether to run the test scripts. -/
  tests : Bool
  /-- Whether to stop at the first failing statement. -/
  crashOnError : Bool
  /-- Whether to print tokens and parsed statements. -/
  debug : Bool
  /-- Whether to measure times. -/
  benchmark : Bool
  /-- Whether to print the journal. -/
  verbose : Bool

/-- Nothing is asked for. -/
def Choices.default : Choices := ⟨none, none, some 0, false, false, false, false, false⟩

/-- The choices with an option that takes no value. -/
def Choices.switch (c : Choices) : OptionName → Choices
  | .tests => { c with tests := true }
  | .crashOnError => { c with crashOnError := true }
  | .debug => { c with debug := true }
  | .benchmark => { c with benchmark := true }
  | .verbose => { c with verbose := true }
  | .help | .eval | .tolerance => c

/-- The choices with an option that takes a value.  Nothing is left of a value that is only the separator:
there is nothing to evaluate, and no tolerance. -/
def Choices.assign (c : Choices) (o : OptionName) (value : String) : Except UsageError Choices :=
  match o with
  | .eval => .ok { c with eval := some (if value = separatorText then "" else value) }
  | .tolerance =>
      if value = separatorText then .ok { c with tolerance := none }
      else match Decimal.read? value with
        | some x => .ok { c with tolerance := some x }
        | none => .error (.invalidNumber o value)
  | o => .error (.unexpectedValue o value)

/-- What the arguments come to. -/
inductive Request where
  /-- To say how the command is used. -/
  | help
  /-- To do what the choices say. -/
  | run (c : Choices)

/-- How far the arguments have been read. -/
structure Reading where
  /-- The choices so far. -/
  choices : Choices
  /-- Whether there may still be a script. -/
  awaitsFile : Bool
  /-- The arguments that nothing takes. -/
  extras : List String

/-- The reading with a text that nothing takes. -/
def Reading.addExtra (r : Reading) (s : String) : Reading := { r with extras := r.extras ++ [s] }

/-- The reading with an argument that may be the script. -/
def Reading.addPlain (r : Reading) (s : String) : Reading :=
  if r.awaitsFile then { r with choices := { r.choices with file := some s }, awaitsFile := false }
  else r.addExtra s

/-- The text of an argument behind the last option. -/
def Argument.text : Argument → String
  | plain s | unknown s => s
  | _ => separatorText

/-- Arguments without the separator, if it is the first of them. -/
def dropSeparator : List Argument → List Argument
  | .separator :: as => as
  | as => as

/-- The reading with arguments that nothing takes. -/
def Reading.addExtras (r : Reading) (as : List Argument) : Reading :=
  { r with extras := r.extras ++ as.map Argument.text }

/-- Reads the arguments behind the last option.  A separator directly before or behind the script is
passed over. -/
def Reading.finish (r : Reading) (as : List Argument) : Reading :=
  if r.awaitsFile then
    match dropSeparator as with
    | .plain s :: rest =>
        (r.addPlain s).addExtras
          (if as.head? = some .separator then rest else dropSeparator rest)
    | rest => r.addExtras rest
  else r.addExtras as

/-- What is wrong with the short options behind the one for help, if anything is; `as` are the arguments
that follow.  Each is looked at before any of them has an effect, up to one that takes a value. -/
def clusterError? (as : List Argument) : List Char → Option UsageError
  | [] => none
  | c :: cs => match optionOf? (String.ofList ['-', c]) with
    | none => some (.unexpectedValue .help (String.ofList (c :: cs)))
    | some o =>
        if o.takesValue then
          match cs, as with
          | [], .plain _ :: _ | _ :: _, _ => none
          | [], _ => some (.missingValue o)
        else clusterError? as cs

/-- Reads arguments from the left; `none` if help is asked for. -/
def Reading.read (r : Reading) (as : List Argument) : Except UsageError (Option Reading) :=
  if as.any Argument.isOption then
    match as with
    | [] => .ok (some r)
    | .plain s :: as => (r.addPlain s).read as
    | .separator :: as => (r.addExtra separatorText).read as
    | .unknown s :: as => (r.addExtra s).read as
    | .cluster cs :: as => match clusterError? as cs with
      | some e => .error e
      | none => .ok none
    | .option .help none :: _ => .ok none
    | .option o (some v) :: as =>
        (r.choices.assign o v).bind fun c => { r with choices := c }.read as
    | .option o none :: as =>
        if o.takesValue then
          match as with
          | .plain v :: as => (r.choices.assign o v).bind fun c => { r with choices := c }.read as
          | _ => .error (.missingValue o)
        else { r with choices := r.choices.switch o }.read as
  else .ok (some (r.finish as))
termination_by as.length
decreasing_by
  all_goals
    simp only [List.length_cons]
    omega

/-- The choices that have been read, if something takes each of the arguments. -/
def Reading.check (r : Reading) : Except UsageError Choices :=
  if r.extras.isEmpty then .ok r.choices else .error (.unrecognized r.extras)

/-- Reads the arguments of the command. -/
def parse (arguments : List String) : Except UsageError Request := do
  let as ← classifyAll arguments
  match ← (⟨.default, true, []⟩ : Reading).read as with
  | none => pure .help
  | some r => (r.check).map .run

end CommandLine

end MatrixCalc
