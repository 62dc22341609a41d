/-
**Tokens.**

A source text is cut into numbers, names, operators, brackets, separators and line ends.  Each token
keeps its text and where it starts; the end of the text is no token but a position of its own, so
that there is always something to report an error at and never anything to read behind it.

Main definitions:

* `MatrixCalc.Position` — a place in a source text;
* `MatrixCalc.Token.Kind`, `MatrixCalc.Token` — the tokens;
* `MatrixCalc.Tokens` — the tokens of a text and its end;
* `MatrixCalc.Token.describe` — how messages name a token;
* `MatrixCalc.Tokens.dump` — a list of the tokens, one on each line.
-/

import MatrixCalc.Operator
import MatrixCalc.Decimal.Numeral

set_option autoImplicit false

namespace MatrixCalc

/-- A place in a source text. -/
structure Position where
  /-- The number of characters before it. -/
  offset : Nat
  /-- The line it is on, from one. -/
  line : Nat
  /-- The column it is at, from one. -/
  column : Nat
  deriving DecidableEq, Repr, Inhabited

/-- The place where a text starts. -/
def Position.start : Position := ⟨0, 1, 1⟩

/-- The place behind `n` characters on the same line. -/
def Position.advance (p : Position) (n : Nat) : Position := ⟨p.offset + n, p.line, p.column + n⟩

/-- The place behind a line end of `n` characters. -/
def Position.nextLine (p : Position) (n : Nat) : Position := ⟨p.offset + n, p.line + 1, 1⟩

namespace Token

/-- What a token is. -/
inductive Kind where
  | number (value : Decimal.Numeral)
  /-- The name of a variable. -/
  | name
  | operator (op : Operator)
  | openParen
  | closeParen
  /-- An opening bracket, which starts a matrix literal. -/
  | openBracket
  | closeBracket
  /-- An opening brace, which no statement uses. -/
  | openBrace
  /-- A closing brace, which no statement uses. -/
  | closeBrace
  | comma
  | semicolon
  /-- The end of a line. -/
  | newline
  deriving DecidableEq, Repr, Inhabited

/-- Whether a token ends a statement. -/
def Kind.isSeparator : Kind → Bool
  | newline | semicolon => true
  | _ => false

/-- Whether a token starts an operand. -/
def Kind.startsOperand : Kind → Bool
  | number _ | name | openBracket => true
  | _ => false

/-- The kind of a token that is a single character, of one that has no other reading. -/
def Kind.ofChar? : Char → Option Kind
  | '+' => some (operator .add)
  | '-' => some (operator .subtract)
  | '*' => some (operator .multiply)
  | '/' => some (operator .divide)
  | '=' => some (operator .assign)
  | '(' => some openParen
  | ')' => some closeParen
  | '[' => some openBracket
  | ']' => some closeBracket
  | '{' => some openBrace
  | '}' => some closeBrace
  | ',' => some comma
  | ';' => some semicolon
  | _ => none

end Token

/-- A token of a source text. -/
structure Token where
  /-- What it is. -/
  kind : Token.Kind
  /-- Its text in the source. -/
  text : String
  /-- Where it starts. -/
  position : Position
  deriving DecidableEq, Repr, Inhabited

/-- The tokens of a source text, and where the text ends. -/
structure Tokens where
  /-- The tokens, in order. -/
  list : List Token
  /-- The end of the text. -/
  finish : Position
  deriving DecidableEq, Repr, Inhabited

/-- The tokens with another one in front. -/
def Tokens.push (t : Token) (ts : Tokens) : Tokens := ⟨t :: ts.list, ts.finish⟩

@[simp] theorem Tokens.list_push (t : Token) (ts : Tokens) : (ts.push t).list = t :: ts.list := rfl

@[simp] theorem Tokens.finish_push (t : Token) (ts : Tokens) : (ts.push t).finish = ts.finish := rfl

/-! ### Names of tokens -/

/-- How messages name an operator. -/
def Operator.title : Operator → String
  | .add => "Plus"
  | .subtract => "Minus"
  | .multiply => "Asterisk"
  | .divide => "Slash"
  | .assign => "Equal"

/-- How messages name a token. -/
def Token.describe (t : Token) : String :=
  match t.kind with
  | .number _ => "NumericLiteral: " ++ t.text
  | .name => "Identifier: " ++ t.text
  | .operator op => op.title
  | .openParen => "OpenParen"
  | .closeParen => "CloseParen"
  | .openBracket => "OpenBracket"
  | .closeBracket => "CloseBracket"
  | .openBrace => "OpenCurly"
  | .closeBrace => "CloseCurly"
  | .comma => "Comma"
  | .semicolon => "SemiColon"
  | .newline => "EndOfLine"

/-- How messages name the end of the text. -/
def endOfText : String := "EndOfFile"

/-- A line of a token list: where something stands, and its name. -/
def Position.dump (p : Position) (title : String) : String :=
  toString p.line ++ ":" ++ toString p.column ++ " " ++ title

/-- The token list: one token on each line, and the end of the text on the last. -/
def Tokens.dump (ts : Tokens) : String :=
  String.intercalate "\n"
    (ts.list.map (fun t => t.position.dump t.describe) ++ [ts.finish.dump endOfText])

end MatrixCalc
