/-
**Decimal digits.**

A decimal digit is a character of the general category Nd.  The digits of each script are ten
consecutive code points, zero first, so the table holds the zeros only and a digit's value is its
distance from the zero before it.

Main definitions:

* `MatrixCalc.Text.zeroDigits` — the code points of the digits zero;
* `MatrixCalc.Text.digitValue?` — the value of a digit;
* `MatrixCalc.Text.isDigit` — whether a character is a decimal digit.
-/

set_option autoImplicit false

namespace MatrixCalc

namespace Text

/-- The code points of the digits zero of all scripts, in increasing order. -/
def zeroDigits : List Nat := [
  48, 1632, 1776, 1984, 2406, 2534, 2662, 2790, 2918, 3046, 3174, 3302, 3430, 3558, 3664, 3792,
   3872, 4160, 4240, 6112, 6160, 6470, 6608, 6784, 6800, 6992, 7088, 7232, 7248, 42528, 43216,
   43264, 43472, 43504, 43600, 44016, 65296, 66720, 68912, 69734, 69872, 69942, 70096, 70384,
   70736, 70864, 71248, 71360, 71472, 71904, 72016, 72784, 73040, 73120, 92768, 92864, 93008,
   120782, 120792, 120802, 120812, 120822, 123200, 123632, 125264, 130032]

/-- The distance of `n` from the zero of the run of ten digits that holds it, if one does. -/
def digitAbove : List Nat → Nat → Option Nat
  | [], _ => none
  | z :: zs, n => if n < z then none else if n < z + 10 then some (n - z) else digitAbove zs n

theorem digitAbove_lt {zs : List Nat} {n d : Nat} (h : digitAbove zs n = some d) : d < 10 := by
  induction zs with
  | nil => simp [digitAbove] at h
  | cons z zs ih =>
      simp only [digitAbove] at h
      split at h
      · simp at h
      · split at h
        · simp only [Option.some.injEq] at h; omega
        · exact ih h

/-- The value of a decimal digit of any script; `none` for any other character. -/
def digitValue? (c : Char) : Option Nat := digitAbove zeroDigits c.toNat

/-- The value of a digit is below ten. -/
theorem digitValue?_lt {c : Char} {d : Nat} (h : digitValue? c = some d) : d < 10 :=
  digitAbove_lt h

/-- Whether a character is a decimal digit of any script. -/
def isDigit (c : Char) : Bool := (digitValue? c).isSome

/-- The number that a run of digits writes, read from the most significant one; other characters
count for nothing. -/
def digitsValue (cs : List Char) : Nat :=
  cs.foldl (fun n c => match digitValue? c with
    | some d => 10 * n + d
    | none => n) 0

@[simp] theorem digitsValue_nil : digitsValue [] = 0 := rfl

end Text

end MatrixCalc
