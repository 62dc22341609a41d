/-
**Doubles as exact numbers.**

A double is not a number, infinite, or a whole number times a power of two.  This module reads the
three fields of its 64 bits, so that decimal texts can be found by exact arithmetic on natural
numbers.

Main definitions:

* `MatrixCalc.Decimal.Form` — what a double stands for;
* `MatrixCalc.Decimal.form` — the form of a double;
* `MatrixCalc.Decimal.quietNaN`, `MatrixCalc.Decimal.infinity` — the two special values.
-/

set_option autoImplicit false

namespace MatrixCalc

namespace Decimal

/-- What a double stands for. -/
inductive Form where
  /-- Not a number. -/
  | nan
  /-- An infinity, `negative` or not. -/
  | infinite (negative : Bool)
  /-- The number `mantissa * 2 ^ exponent` with a sign; zero has a sign as well. -/
  | finite (negative : Bool) (mantissa : Nat) (exponent : Int)
  deriving DecidableEq, Repr

/-- What a double stands for, from its sign bit, its eleven bits of exponent and its fifty-two bits
of fraction. -/
def form (x : Float) : Form :=
  let bits := x.toBits.toNat
  let negative := decide (Nat.pow 2 63 ≤ bits)
  let exponent : Nat := bits / Nat.pow 2 52 % Nat.pow 2 11
  let fraction : Nat := bits % Nat.pow 2 52
  if exponent = 2047 then
    if fraction = 0 then .infinite negative else .nan
  else if exponent = 0 then .finite negative fraction (-1074)
  else .finite negative (Nat.pow 2 52 + fraction) ((exponent : Int) - 1075)

/-- Not a number. -/
def quietNaN : Float := Float.ofBits 0x7FF8000000000000

/-- The positive infinity. -/
def infinity : Float := Float.ofBits 0x7FF0000000000000

end Decimal

end MatrixCalc
