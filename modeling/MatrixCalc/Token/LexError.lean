/-
**Texts that cannot be cut into tokens.**

Main definitions:

* `MatrixCalc.LexError.Cause`, `MatrixCalc.LexError` — what is wrong, and where;
* `MatrixCalc.LexError.message` — what is said about it.
-/

import MatrixCalc.Token

set_option autoImplicit false

namespace MatrixCalc

/-- What keeps a text from being cut into tokens. -/
inductive LexError.Cause where
  /-- The exponent of a number has no digits; `text` is the number up to there. -/
  | incompleteExponent (text : String)
  /-- A number is followed by a second point. -/
  | secondPoint
  /-- A number is followed by a letter. -/
  | letterSuffix (letter : Char)
  /-- A character that starts no token. -/
  | unexpected (character : Char)
  deriving DecidableEq, Repr

/-- Why and where a text cannot be cut into tokens. -/
structure LexError where
  /-- What is wrong. -/
  cause : LexError.Cause
  /-- Where the number or character in question starts. -/
  position : Position
  deriving DecidableEq, Repr

/-- What is said about a text that cannot be cut into tokens. -/
def LexError.message (e : LexError) : String :=
  let line := toString e.position.line
  match e.cause with
  | .incompleteExponent text =>
      "The scientific notation is not complete in " ++ Text.quoted text ++ " at line " ++ line
  | .secondPoint => "Could not parse a numeric literal with more than one dot at line " ++ line
  | .letterSuffix c =>
      "Unsupported syntax " ++ Text.quoted c.toString ++ " at line " ++ line ++
        ": suffixes other than 'e' are not supported"
  | .unexpected c =>
      "Unexpected character " ++ Text.quoted c.toString ++ " at line " ++ line ++ ", column " ++
        toString e.position.column

end MatrixCalc
