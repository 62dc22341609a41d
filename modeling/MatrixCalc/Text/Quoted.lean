/-
**Quoted texts.**

Messages that name a piece of input show it between quotes, on one line and in visible characters.
Single quotes are used unless the text holds a single quote and no double quote.  The quote in use
and the backslash are escaped by a backslash, the tabulator and the two line ends by their letters,
and every other character that is not printable by its code point in two, four or eight hexadecimal
digits.

Main definitions:

* `MatrixCalc.Text.quoteFor` — the quote that a text is shown between;
* `MatrixCalc.Text.escape` — how one character is shown;
* `MatrixCalc.Text.quoted` — the quoted text.
-/

import MatrixCalc.Text.Printable

set_option autoImplicit false

namespace MatrixCalc

namespace Text

/-- The quote that a text is shown between. -/
def quoteFor (cs : List Char) : Char :=
  if cs.contains '\'' && !cs.contains '"' then '"' else '\''

/-- The hexadecimal digits of `n`, filled up with zeros to `width` places. -/
def hexDigits (width n : Nat) : String :=
  let ds := String.ofList (Nat.toDigits 16 n)
  String.ofList (List.replicate (width - ds.length) '0') ++ ds

/-- A character that is not printable, by its code point. -/
def escapeCode (n : Nat) : String :=
  if n < 0x100 then "\\x" ++ hexDigits 2 n
  else if n < 0x10000 then "\\u" ++ hexDigits 4 n
  else "\\U" ++ hexDigits 8 n

/-- How a character is shown between the quotes `quote`. -/
def escape (quote c : Char) : String :=
  if c = quote ∨ c = '\\' then String.ofList ['\\', c]
  else if c = '\t' then "\\t"
  else if c = '\n' then "\\n"
  else if c = '\r' then "\\r"
  else if isPrintable c then c.toString
  else escapeCode c.toNat

/-- The text between quotes. -/
def quoted (s : String) : String :=
  let quote := quoteFor s.toList
  quote.toString ++ String.join (s.toList.map (escape quote)) ++ quote.toString

end Text

end MatrixCalc
