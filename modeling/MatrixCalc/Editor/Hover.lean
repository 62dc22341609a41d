/-
**What an editor shows about a variable.**

Where the cursor is inside a name, outside of a comment, the editor shows the value that the variable
has after the whole text, if it has one.

Main definitions:

* `MatrixCalc.Editor.Word`, `MatrixCalc.Editor.words` — the names on a line;
* `MatrixCalc.Editor.wordAt?` — the name at a place;
* `MatrixCalc.Editor.Hover`, `MatrixCalc.Editor.hover?` — what is shown at a place.

Main results:

* `MatrixCalc.Editor.words_eq_nil` — a line without a character that can start a name has no names.
-/

import MatrixCalc.Editor.Report
import MatrixCalc.Scope.Env
import MatrixCalc.Text.Lines
import MatrixCalc.Text.Word
import MatrixCalc.Value.Display

set_option autoImplicit false

namespace MatrixCalc

namespace Editor

/-- A name on a line. -/
structure Word where
  /-- The number of characters before it. -/
  start : Nat
  /-- Its characters. -/
  chars : List Char
  deriving DecidableEq, Repr

/-- The number of characters before the end of a name. -/
def Word.stop (w : Word) : Nat := w.start + w.chars.length

/-- The names on the rest of a line, before which there are `k` characters. -/
def wordsFrom (k : Nat) : List Char → List Word
  | [] => []
  | c :: cs =>
      if Text.isNameStart c then
        let w : Word := ⟨k, c :: cs.takeWhile Text.isWordChar⟩
        w :: wordsFrom w.stop (cs.dropWhile Text.isWordChar)
      else wordsFrom (k + 1) cs
termination_by cs => cs.length
decreasing_by
  · exact Nat.lt_succ_of_le (List.dropWhile_suffix _).length_le
  · simp

/-- The names on a line. -/
def words (line : List Char) : List Word := wordsFrom 0 line

theorem wordsFrom_eq_nil (k : Nat) (line : List Char)
    (h : ∀ c ∈ line, Text.isNameStart c = false) : wordsFrom k line = [] := by
  induction line generalizing k with
  | nil => rw [wordsFrom]
  | cons c cs ih =>
      rw [wordsFrom, h c (by simp)]
      exact ih (k + 1) fun d hd => h d (by simp [hd])

/-- A line without a character that can start a name has no names. -/
theorem words_eq_nil (line : List Char) (h : ∀ c ∈ line, Text.isNameStart c = false) :
    words line = [] :=
  wordsFrom_eq_nil 0 line h

/-- Whether the character at `k` is in a comment. -/
def inComment (line : List Char) (k : Nat) : Bool := (line.take (k + 1)).contains '%'

/-- The name at a character of a line. -/
def wordAt? (line : List Char) (k : Nat) : Option Word :=
  if inComment line k then none
  else (words line).find? fun w => decide (w.start ≤ k) && decide (k < w.stop)

/-- What is shown about a variable. -/
structure Hover where
  /-- The text, in Markdown. -/
  text : String
  /-- Where the name stands. -/
  range : Range
  deriving DecidableEq, Repr

/-- What is shown about a variable of a value. -/
def hoverText (name : String) : Value Float → String
  | .scalar x => "(convector) `" ++ name ++ "` = `" ++ (Value.scalar x).text ++ "`"
  | .matrix a =>
      "(convector) `" ++ name ++ "`: " ++ a.shape.times ++ " matrix\n```\n" ++
        (Value.matrix a).text ++ "\n```"

/-- What is shown at a character of a line, both counted from zero, of a text whose variables have the
values of `env`. -/
def hover? (env : Env (Value Float)) (source : String) (line character : Int) : Option Hover := do
  guard (0 ≤ line ∧ 0 ≤ character)
  let l ← (Text.lines source.toList)[line.toNat]?
  let w ← wordAt? l character.toNat
  let name := String.ofList w.chars
  let v ← env.get? name
  pure ⟨hoverText name v, ⟨line, w.start, w.stop⟩⟩

end Editor

end MatrixCalc
