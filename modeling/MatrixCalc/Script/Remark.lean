/-
**Remarks of scripts.**

A comment that stands alone on its line can say which values a script is expected to leave, how many
failures it is expected to have, and with which tolerance it is to be run:

    % EXPECT: x = [1, 2; 3, 4]
    % EXPECT: errors = 0
    % TOLERANCE: 1e-9

Main definitions:

* `MatrixCalc.Script.Remark` — the remarks;
* `MatrixCalc.Script.Remark.ofLine?` — the remark on a line;
* `MatrixCalc.Script.Expectations` — all that a script is expected to do;
* `MatrixCalc.Script.Expectations.ofSource` — what the remarks of a script say.
-/

import MatrixCalc.Bindings
import MatrixCalc.Decimal.Numeral
import MatrixCalc.Text.Lines
import MatrixCalc.Text.Word

set_option autoImplicit false

namespace MatrixCalc

namespace Script

open Text

/-- A remark. -/
inductive Remark where
  /-- The tolerance, as it is written. -/
  | tolerance (text : String)
  /-- The digits of the number of failures. -/
  | errors (digits : List Char)
  /-- The value of a variable, as it is written but without blanks. -/
  | value (name text : String)
  deriving DecidableEq, Repr

/-- What follows a percent sign and a key, each with blanks behind it. -/
def after? (key : String) : List Char → Option (List Char)
  | '%' :: cs => (key.toList.isPrefixOf? (dropBlanks cs)).map dropBlanks
  | _ => none

/-- What follows an equals sign that has blanks around it. -/
def afterEquals? (cs : List Char) : Option (List Char) :=
  match dropBlanks cs with
  | '=' :: rest => some (dropBlanks rest)
  | _ => none

/-- The tolerance that a line gives: all that follows the key, if that is one word. -/
def toleranceOf? (line : List Char) : Option Remark :=
  (after? "TOLERANCE:" line).bind fun cs =>
    if cs.isEmpty || cs.any isBlank then none else some (.tolerance (String.ofList cs))

/-- Whether two letters are the same but for their case; the long s is an s as well. -/
def sameLetter (c d : Char) : Bool := c == d || c.toLower == d || (c == 'ſ' && d == 's')

/-- What follows a word at the front of a text, in whichever case the word is written. -/
def afterWord? : List Char → List Char → Option (List Char)
  | [], cs => some cs
  | d :: ds, c :: cs => if sameLetter c d then afterWord? ds cs else none
  | _ :: _, [] => none

/-- The number of failures that the text of an expectation gives, in digits of any script. -/
def errorsOf? (cs : List Char) : Option Remark := do
  let rest ← afterWord? "errors".toList cs
  let ds ← afterEquals? rest
  if ds.isEmpty || !ds.all isDigit then none else some (.errors ds)

/-- The value that the text of an expectation gives. -/
def valueOf? : List Char → Option Remark
  | [] => none
  | c :: cs =>
      if isNameStart c then
        (afterEquals? (cs.dropWhile isWordChar)).bind fun text =>
          if text.isEmpty then none
          else some (.value (String.ofList (c :: cs.takeWhile isWordChar))
            (String.ofList (withoutBlanks text)))
      else none

/-- The remark on a line, if there is one. -/
def Remark.ofLine? (line : List Char) : Option Remark :=
  let line := trim line
  (toleranceOf? line).or
    ((after? "EXPECT:" line).bind fun cs => (errorsOf? cs).or (valueOf? cs))

/-- What a script is expected to do. -/
structure Expectations where
  /-- The values of variables, without blanks. -/
  values : Bindings String
  /-- The number of failures, if it is given. -/
  errors : Option Nat
  /-- The tolerance to run with. -/
  tolerance : Float

/-- A remark that cannot be used. -/
inductive RemarkError where
  /-- The tolerance is no number. -/
  | unreadable (text : String)
  /-- The number of failures has too many digits. -/
  | tooManyDigits (count : Nat)
  deriving DecidableEq, Repr

/-- The most digits that a number of failures may have. -/
def digitLimit : Nat := 4300

/-- What is said about a remark that cannot be used. -/
def RemarkError.message : RemarkError → String
  | unreadable text => Decimal.unreadableMessage text
  | tooManyDigits count =>
      "Exceeds the limit (" ++ toString digitLimit ++
        " digits) for integer string conversion: value has " ++ toString count ++
        " digits; use sys.set_int_max_str_digits() to increase the limit"

namespace Expectations

/-- Nothing is expected, and only an exact zero counts as zero. -/
def nothing : Expectations := ⟨.empty, none, 0⟩

/-- The expectations with another remark, which takes the place of an earlier one. -/
def add (e : Expectations) : Remark → Except RemarkError Expectations
  | .tolerance text => match Decimal.read? text with
    | some x => .ok { e with tolerance := x }
    | none => .error (.unreadable text)
  | .errors digits =>
      if digits.length ≤ digitLimit then .ok { e with errors := some (digitsValue digits) }
      else .error (.tooManyDigits digits.length)
  | .value name text => .ok { e with values := e.values.set name text }

/-- What the remarks of a script say. -/
def ofSource (source : String) : Except RemarkError Expectations :=
  ((lines source.toList).filterMap Remark.ofLine?).foldlM add nothing

end Expectations

end Script

end MatrixCalc
