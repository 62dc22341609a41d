/-
**How numbers are written.**

The calculator writes a number with the fewest digits that read back
(`MatrixCalc.Decimal.shortest`).  The decimal point is placed directly for exponents from -4 up to
15; beyond these one digit stands before the point and a signed exponent of at least two digits
follows.  Three notations differ in the rest: whether a whole number keeps a point and a zero behind
it, whether zero keeps its sign, and what is written for a value that is not a number.

Main definitions:

* `MatrixCalc.Decimal.Notation` — the decisions that a notation makes;
* `MatrixCalc.Decimal.roundTrip`, `MatrixCalc.Decimal.display`, `MatrixCalc.Decimal.literal` — the
  notations of the data dumps, of results and of parsed numbers;
* `MatrixCalc.Decimal.layout` — digits and an exponent, written out;
* `MatrixCalc.Decimal.Notation.write` — the text of a double.
-/

import MatrixCalc.Decimal.Binary
import MatrixCalc.Decimal.Shortest

set_option autoImplicit false

namespace MatrixCalc

namespace Decimal

/-- The decisions of a notation for numbers. -/
structure Notation where
  /-- Whether a whole number is written with a point and a zero. -/
  pointedWhole : Bool
  /-- Whether zero keeps its sign. -/
  signedZero : Bool
  /-- What is written for a value that is not a number. -/
  nan : String

/-- Data dumps write every number as what it is: `3.0`, `-0.0`, `nan`. -/
def roundTrip : Notation := ⟨true, true, "nan"⟩

/-- Results are shown with whole numbers bare: `3`, `0`, `NaN`. -/
def display : Notation := ⟨false, false, "NaN"⟩

/-- Numbers of a parsed expression are shown like results, but for `nan`. -/
def literal : Notation := ⟨false, false, "nan"⟩

/-- The text of an infinity without its sign. -/
def infinityText : String := "inf"

/-- So many zeros. -/
def zeros (n : Nat) : List Char := List.replicate n '0'

/-- The exponent of scientific notation: a sign and at least two digits. -/
def exponentText (e : Int) : List Char :=
  let ds := Nat.toDigits 10 e.natAbs
  'e' :: (if e < 0 then '-' else '+') :: (zeros (2 - ds.length) ++ ds)

/-- The digits `ds` with a decimal point behind the first `point` of them, where `-4 < point` and
`point ≤ 16` is meant; `whole` is what follows a whole number. -/
def positional (whole : List Char) (ds : List Char) (point : Int) : List Char :=
  if point ≤ 0 then '0' :: '.' :: (zeros (-point).toNat ++ ds)
  else if ds.length ≤ point then ds ++ zeros (point - ds.length).toNat ++ whole
  else ds.take point.toNat ++ '.' :: ds.drop point.toNat

/-- The digits `ds` with a decimal point behind the first of them, and the exponent `e`. -/
def scientific (ds : List Char) (e : Int) : List Char :=
  match ds with
  | [] => exponentText e
  | [d] => d :: exponentText e
  | d :: ds => d :: '.' :: (ds ++ exponentText e)

/-- The number `c * 10 ^ p`: positional if its decimal exponent is at least -4 and below 16, else
scientific. -/
def layout (whole : List Char) (c : Nat) (p : Int) : List Char :=
  let ds := Nat.toDigits 10 c
  let point := ds.length + p
  if -4 < point ∧ point ≤ 16 then positional whole ds point else scientific ds (point - 1)

/-- A minus sign, if one is due. -/
def signText (negative : Bool) : List Char := if negative then ['-'] else []

/-- The text of a double, as characters. -/
def Notation.chars (n : Notation) (x : Float) : List Char :=
  let whole := if n.pointedWhole then ['.', '0'] else []
  match form x with
  | .nan => n.nan.toList
  | .infinite negative => signText negative ++ infinityText.toList
  | .finite negative 0 _ => signText (negative && n.signedZero) ++ '0' :: whole
  | .finite negative m q =>
      let (c, p) := shortest m q
      signText negative ++ layout whole c p

/-- The text of a double. -/
def Notation.write (n : Notation) (x : Float) : String := String.ofList (n.chars x)

end Decimal

end MatrixCalc
