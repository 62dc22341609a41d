/-
**Walking over tokens.**

A cursor stands at one of the tokens of a text, at its end, or at an index beyond, where nothing can be
read any more.  Each parser moves it to the tokens that it left, or at which it stopped.

Main definitions:

* `MatrixCalc.Parse.Cursor` — a place among the tokens of a text;
* `MatrixCalc.Parse.Cursor.Failure` — why a step has no result;
* `MatrixCalc.Parse.Cursor.run` — runs a parser at a cursor;
* `MatrixCalc.Parse.Cursor.recover` — moves a cursor behind a failed statement.
-/

import MatrixCalc.Parse.Statements

set_option autoImplicit false

namespace MatrixCalc

namespace Parse

/-- A place among the tokens of a text: before the token `index`, or at the end of the text.  A negative
index counts from the end of the text, which is at -1. -/
structure Cursor where
  /-- The tokens of the text. -/
  source : Tokens
  /-- Which token the cursor is before. -/
  index : Int

namespace Cursor

/-- Why a step of a cursor has no result. -/
inductive Failure where
  /-- The tokens at the cursor are not what the parser reads. -/
  | parse (e : ParseError)
  /-- The cursor is beyond the end of the text. -/
  | beyondEnd

/-- What is said about a step that has no result. -/
def Failure.message : Failure → String
  | parse e => e.message
  | beyondEnd => "list index out of range"

/-- The cursor before the first token. -/
def start (source : Tokens) : Cursor := ⟨source, 0⟩

/-- How many tokens are before the cursor. -/
def offset (c : Cursor) : Int :=
  if c.index < 0 then c.index + (c.source.list.length + 1) else c.index

/-- The tokens at the cursor, unless it is beyond the end of the text. -/
def rest? (c : Cursor) : Except Failure (List Token) :=
  if 0 ≤ c.offset ∧ c.offset ≤ c.source.list.length then
    .ok (c.source.list.drop c.offset.toNat)
  else .error .beyondEnd

/-- The cursor that was at the tokens `before` and has come to the tokens `after` behind them. -/
def moved (c : Cursor) (before after : List Token) : Cursor :=
  { c with index := c.index + (before.length - after.length : Nat) }

/-- The token at the cursor, or `none` at the end of the text. -/
def current (c : Cursor) : Except Failure (Option Token) := c.rest?.map List.head?

/-- Whether the cursor is at the end of the text. -/
def atEnd (c : Cursor) : Except Failure Bool := c.rest?.map List.isEmpty

/-- The cursor behind the token it is at; at the end of the text it stays. -/
def advance (c : Cursor) : Cursor :=
  match c.rest? with
  | .ok ts => c.moved ts ts.tail
  | .error _ => c

/-- The cursor at the next statement. -/
def skipSeparators (c : Cursor) : Except Failure Cursor :=
  c.rest?.map fun ts => c.moved ts (Parse.skipSeparators ts)

/-- Runs a parser at the cursor. -/
def run {α : Type} (c : Cursor) (p : Position → (ts : List Token) → Outcome α ts.length) :
    Except Failure α × Cursor :=
  match c.rest? with
  | .error e => (.error e, c)
  | .ok ts =>
      let o := p c.source.finish ts
      (o.result.mapError .parse, c.moved ts o.rest)

/-- Moves the cursor to the token `start` and from there behind the failed statement, whose tokens are
the result. -/
def recover (c : Cursor) (start : Int) : Except Failure (List Token) × Cursor :=
  let c : Cursor := { c with index := start }
  match c.rest? with
  | .error e => (.error e, c)
  | .ok ts => (.ok (Parse.recover ts).1, c.moved ts (Parse.recover ts).2)

end Cursor

end Parse

end MatrixCalc
