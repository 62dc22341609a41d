/-
**Parsing statements.**

A statement is an expression and what ends it: the end of the text or of the line, after which the
value is printed, or a semicolon, after which it is not.  Line ends and semicolons between statements
are passed over.  After an error reading goes on behind the next line end or semicolon, counted from
the start of the failed statement, that is not inside brackets.

Main definitions:

* `MatrixCalc.Parse.skipSeparators` — the tokens from the next statement on;
* `MatrixCalc.Parse.statement` — parses a statement and what ends it;
* `MatrixCalc.Parse.recover` — the tokens of a failed statement, and those behind it;
* `MatrixCalc.Parse.statements` — all statements up to the first error;
* `MatrixCalc.Parse.source`, `MatrixCalc.Parse.firstStatement`, `MatrixCalc.Parse.line` — a source text
  as statements, as a statement and more, as one statement.

Main results:

* `MatrixCalc.Parse.recover_append` — recovery neither loses nor changes a token;
* `MatrixCalc.Parse.length_recover_lt` — recovery passes over a token at least.
-/

import MatrixCalc.Parse.Expression
import MatrixCalc.Token.Lexer

set_option autoImplicit false

namespace MatrixCalc

namespace Parse

/-! ### Between statements -/

/-- The tokens from the next statement on. -/
def skipSeparators (ts : List Token) : List Token := ts.dropWhile fun t => t.kind.isSeparator

@[simp] theorem skipSeparators_nil : skipSeparators [] = [] := rfl

theorem skipSeparators_cons (t : Token) (ts : List Token) :
    skipSeparators (t :: ts) = if t.kind.isSeparator then skipSeparators ts else t :: ts := by
  simp only [skipSeparators, List.dropWhile_cons]

/-- Passing over separators puts no token back. -/
theorem length_skipSeparators_le (ts : List Token) : (skipSeparators ts).length ≤ ts.length :=
  (List.dropWhile_suffix _).length_le

/-- No separator is left in front. -/
theorem isSeparator_head_skipSeparators {ts rest : List Token} {t : Token}
    (h : skipSeparators ts = t :: rest) : t.kind.isSeparator = false := by
  induction ts with
  | nil => simp at h
  | cons u ts ih =>
      rw [skipSeparators_cons] at h
      split at h
      · exact ih h
      · next hu =>
          cases h
          simpa using hu

/-- How deep in brackets the token behind `k` is, if `k` is at the depth `depth`; a closing bracket
that closes none does not count. -/
def depthAfter (depth : Nat) : Token.Kind → Nat
  | .openBracket => depth + 1
  | .closeBracket => depth - 1
  | _ => depth

/-- The tokens up to the next end of a statement outside brackets, and those behind it; `depth` is
how deep in brackets the tokens start. -/
def recoverFrom (depth : Nat) : List Token → List Token × List Token
  | [] => ([], [])
  | t :: ts =>
      if depth = 0 ∧ t.kind.isSeparator = true then ([], ts)
      else
        let r := recoverFrom (depthAfter depth t.kind) ts
        (t :: r.1, r.2)

/-- The tokens of the failed statement that `ts` starts with, and those behind it. -/
def recover (ts : List Token) : List Token × List Token := recoverFrom 0 ts

theorem recoverFrom_append (depth : Nat) (ts : List Token) :
    (recoverFrom depth ts).1 ++ (recoverFrom depth ts).2 = ts ∨
      ∃ t, t.kind.isSeparator = true ∧
        (recoverFrom depth ts).1 ++ t :: (recoverFrom depth ts).2 = ts := by
  induction ts generalizing depth with
  | nil => exact .inl rfl
  | cons t ts ih =>
      simp only [recoverFrom]
      split
      · next h => exact .inr ⟨t, h.2, rfl⟩
      · rcases ih (depthAfter depth t.kind) with h | ⟨u, hu, h⟩
        · exact .inl (by simp [h])
        · exact .inr ⟨u, hu, by simp [h]⟩

/-- Recovery neither loses nor changes a token, but for the one at which it ends. -/
theorem recover_append (ts : List Token) :
    (recover ts).1 ++ (recover ts).2 = ts ∨
      ∃ t, t.kind.isSeparator = true ∧ (recover ts).1 ++ t :: (recover ts).2 = ts :=
  recoverFrom_append 0 ts

theorem length_recoverFrom_le (depth : Nat) (ts : List Token) :
    (recoverFrom depth ts).2.length ≤ ts.length := by
  induction ts generalizing depth with
  | nil => simp [recoverFrom]
  | cons t ts ih =>
      simp only [recoverFrom]
      split
      · simp
      · exact Nat.le_succ_of_le (ih _)

/-- Recovery passes over a token at least. -/
theorem length_recover_lt (t : Token) (ts : List Token) :
    (recover (t :: ts)).2.length < (t :: ts).length := by
  simp only [recover, recoverFrom]
  split
  · simp
  · exact Nat.lt_succ_of_le (length_recoverFrom_le _ _)

/-! ### Statements -/

/-- The statement of an expression. -/
def toStatement (e : Expr) (prints : Bool) (line : Nat) : Statement := ⟨e, e.storesAns, prints, line⟩

/-- Parses a statement and what ends it. -/
def statement (finish : Position) (ts : List Token) : Outcome Statement ts.length :=
  let line := (positionOf finish ts).line
  match expression finish false ts with
  | .error e stop => .error e stop
  | .ok e [] h => .ok (toStatement e true line) [] h
  | .ok e (t :: rest) h =>
      match t.kind with
      | .newline => .ok (toStatement e true line) rest (Nat.lt_trans (Nat.lt_succ_self _) h)
      | .semicolon => .ok (toStatement e false line) rest (Nat.lt_trans (Nat.lt_succ_self _) h)
      | _ => .error (.at_ t.position (.unexpectedToken (some endOfText) (some t.describe))) (t :: rest)

/-- The statements up to the first error, and the error if there is one. -/
def statements (finish : Position) (ts : List Token) : List Statement × Option ParseError :=
  match _hs : skipSeparators ts with
  | [] => ([], none)
  | t :: rest =>
      match statement finish (t :: rest) with
      | .error e _ => ([], some e)
      | .ok s rest' _ =>
          let r := statements finish rest'
          (s :: r.1, r.2)
termination_by ts.length
decreasing_by
  have h := length_skipSeparators_le ts
  simp_all only [List.length_cons]
  omega

/-! ### Source texts -/

/-- Why a source text is not a list of statements. -/
inductive SourceError where
  /-- It cannot be cut into tokens. -/
  | lex (e : LexError)
  /-- Its tokens are not statements. -/
  | parse (e : ParseError)
  deriving DecidableEq, Repr

/-- The tokens of a source text, for a parser. -/
def tokens (src : String) : Except SourceError Tokens := (lex src).mapError .lex

/-- The statements of a source text up to the first error, and the error if there is one. -/
def statementsOf (src : String) : List Statement × Option SourceError :=
  match tokens src with
  | .error e => ([], some e)
  | .ok ts =>
      let r := statements ts.finish ts.list
      (r.1, r.2.map .parse)

/-- The statements of a source text. -/
def source (src : String) : Except SourceError (List Statement) :=
  match statementsOf src with
  | (ss, none) => .ok ss
  | (_, some e) => .error e

/-- The statement that a source text starts with. -/
def firstStatement (src : String) : Except SourceError Statement := do
  let ts ← tokens src
  (statement ts.finish ts.list).result.mapError .parse

/-- What is wrong with the tokens behind a statement, if anything is: only separators may follow. -/
def trailingError? (ts : List Token) : Option ParseError :=
  match skipSeparators ts with
  | [] => none
  | t :: _ => some (.at_ t.position (.unexpectedToken (some endOfText) (some t.describe)))

/-- The one statement of a line. -/
def line (src : String) : Except SourceError Statement := do
  let ts ← tokens src
  match statement ts.finish (skipSeparators ts.list) with
  | .error e _ => .error (.parse e)
  | .ok s rest _ =>
      match trailingError? rest with
      | some e => .error (.parse e)
      | none => .ok s

end Parse

end MatrixCalc
