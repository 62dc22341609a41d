/-
**What parsing some tokens gives.**

A parser reads tokens from the front of a list.  It gives a value and the tokens it left, which are
fewer than there were, or an error and the tokens at which it stopped.  That a success consumes a
token is part of the outcome's type, so loops over parsers end for a reason that their types state.

Main definitions:

* `MatrixCalc.Outcome` — what parsing fewer than `n` tokens gives;
* `MatrixCalc.Outcome.result`, `MatrixCalc.Outcome.rest` — the value or error, and the tokens left;
* `MatrixCalc.positionOf`, `MatrixCalc.describeFirst` — where the tokens left start, and with what.
-/

import MatrixCalc.Parse.ParseError

set_option autoImplicit false

namespace MatrixCalc

/-- What a parser gives: a value and the fewer than `n` tokens that are left, or an error and the
tokens at which it stopped. -/
inductive Outcome (α : Type) (n : Nat) where
  /-- A value, and the tokens that are left. -/
  | ok (value : α) (rest : List Token) (shorter : rest.length < n)
  /-- An error, and the tokens at which the parser stopped. -/
  | error (e : ParseError) (rest : List Token)

namespace Outcome

variable {α β : Type} {n m : Nat}

/-- The value or the error. -/
def result : Outcome α n → Except ParseError α
  | ok a _ _ => .ok a
  | error e _ => .error e

/-- The tokens that are left, or at which the parser stopped. -/
def rest : Outcome α n → List Token
  | ok _ ts _ => ts
  | error _ ts => ts

@[simp] theorem result_ok (a : α) (ts : List Token) (h : ts.length < n) :
    (ok a ts h).result = .ok a := rfl

@[simp] theorem result_error (e : ParseError) (ts : List Token) :
    (error e ts : Outcome α n).result = .error e := rfl

@[simp] theorem rest_ok (a : α) (ts : List Token) (h : ts.length < n) : (ok a ts h).rest = ts := rfl

@[simp] theorem rest_error (e : ParseError) (ts : List Token) :
    (error e ts : Outcome α n).rest = ts := rfl

/-- A success leaves fewer tokens than there were. -/
theorem length_rest_lt_of_result {o : Outcome α n} {a : α} (h : o.result = .ok a) :
    o.rest.length < n := by
  cases o with
  | ok _ _ hs => exact hs
  | error => simp at h

/-- The outcome with another value. -/
def map (f : α → β) : Outcome α n → Outcome β n
  | ok a ts h => ok (f a) ts h
  | error e ts => error e ts

/-- The outcome of a parser that was run on a shorter list. -/
def widen (h : n ≤ m) : Outcome α n → Outcome α m
  | ok a ts hs => ok a ts (Nat.lt_of_lt_of_le hs h)
  | error e ts => error e ts

end Outcome

/-- Where the tokens `ts` start: at the first of them, or at the end of the text. -/
def positionOf (finish : Position) : List Token → Position
  | [] => finish
  | t :: _ => t.position

@[simp] theorem positionOf_nil (finish : Position) : positionOf finish [] = finish := rfl

@[simp] theorem positionOf_cons (finish : Position) (t : Token) (ts : List Token) :
    positionOf finish (t :: ts) = t.position := rfl

/-- How messages name the first of the tokens `ts`, or the end of the text. -/
def describeFirst : List Token → String
  | [] => endOfText
  | t :: _ => t.describe

end MatrixCalc
