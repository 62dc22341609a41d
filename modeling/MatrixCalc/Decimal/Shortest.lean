/-
**The fewest digits that read back.**

A decimal number reads back as a double if it lies in the interval of the reals that round to it:
half a step of the last binary place to either side, a quarter below where the steps shrink, the
ends included if the mantissa is even.  The search goes through ever finer decimal grids, starting
with one on which the double is below ten, and takes the first grid that has a point in the
interval.  Only the two neighbours of the double on a grid can be such points: if any point of the
grid lies in the interval then so does one of them.  Of two such neighbours the nearer is taken, and
of two equally near ones the even one.

Everything is done in exact arithmetic on natural numbers: a decimal point `c * 10 ^ p` and a binary
one `b * 2 ^ e` are compared after clearing both denominators.

Main definitions:

* `MatrixCalc.Decimal.Scale` — the common denominator of a decimal and a binary place;
* `MatrixCalc.Decimal.readsBack` — whether a point of a grid rounds to the double;
* `MatrixCalc.Decimal.onGrid?` — the point of one grid that is to be written, if it has any;
* `MatrixCalc.Decimal.shortest` — the shortest decimal of a double.
-/

set_option autoImplicit false

namespace MatrixCalc

namespace Decimal

/-- Whole numbers that stand for one decimal unit `10 ^ p` and one binary unit `2 ^ e`, in the ratio
of these two. -/
structure Scale where
  /-- Stands for the decimal unit. -/
  decimal : Nat
  /-- Stands for the binary unit. -/
  binary : Nat

/-- The scale of the units `10 ^ p` and `2 ^ e`. -/
def Scale.of (p e : Int) : Scale where
  decimal := Nat.pow 10 p.toNat * Nat.pow 2 (-e).toNat
  binary := Nat.pow 2 e.toNat * Nat.pow 10 (-p).toNat

/-- Whether the step below the double `m * 2 ^ q` is half of the step above it. -/
def shrinksBelow (m : Nat) (q : Int) : Bool := decide (m = Nat.pow 2 52) && decide (-1074 < q)

/-- Whether `c` decimal units round to `m * 2 ^ q`, on the scale of the decimal unit and a quarter of
the last binary place. -/
def readsBack (m : Nat) (q : Int) (s : Scale) (c : Nat) : Bool :=
  let point := c * s.decimal
  let low := (4 * m - if shrinksBelow m q then 1 else 2) * s.binary
  let high := (4 * m + 2) * s.binary
  if m % 2 = 0 then decide (low ≤ point) && decide (point ≤ high)
  else decide (low < point) && decide (point < high)

/-- The point of the grid of step `10 ^ p` that is written for `m * 2 ^ q`: a neighbour of it that
reads back, of two such the nearer one, of two equally near ones the even one. -/
def onGrid? (m : Nat) (q : Int) (p : Int) : Option Nat :=
  let s := Scale.of p (q - 2)
  let value := 4 * m * s.binary
  let below := value / s.decimal
  let rest := value % s.decimal
  match readsBack m q s below, readsBack m q s (below + 1) with
  | true, false => some below
  | false, true => some (below + 1)
  | false, false => none
  | true, true =>
      if 2 * rest < s.decimal then some below
      else if s.decimal < 2 * rest then some (below + 1)
      else if below % 2 = 0 then some below
      else some (below + 1)

/-- An exponent `p` such that `m * 2 ^ q` is below `10 ^ (p + 1)`, and not much smaller: the binary
logarithm times a little more than the decimal logarithm of two. -/
def coarsestExponent (m : Nat) (q : Int) : Int :=
  (((Nat.log2 m : Int) + 1 + q) * 30103).fdiv 100000 + 1

/-- The search from the grid of step `10 ^ p` on, through `fuel` grids. -/
def search (m : Nat) (q : Int) : Nat → Int → Nat × Int
  | 0, p => (0, p)
  | fuel + 1, p => match onGrid? m q p with
    | some c => (c, p)
    | none => search m q fuel (p - 1)

/-- A number without its zeros at the end, and how many these were. -/
def dropZeros : Nat → Nat → Nat × Nat
  | 0, c => (c, 0)
  | fuel + 1, c =>
      if c ≠ 0 ∧ c % 10 = 0 then
        let r := dropZeros fuel (c / 10)
        (r.1, r.2 + 1)
      else (c, 0)

/-- The shortest decimal `c * 10 ^ p` that reads back as `m * 2 ^ q`, where `m` is not zero.  Twenty
grids are enough: a double below ten is told from all others by seventeen digits. -/
def shortest (m : Nat) (q : Int) : Nat × Int :=
  let found := search m q 22 (coarsestExponent m q)
  let r := dropZeros 20 found.1
  (r.1, found.2 + r.2)

end Decimal

end MatrixCalc
