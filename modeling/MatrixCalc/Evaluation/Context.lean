/-
**What all statements of a session share.**

Main definitions:

* `MatrixCalc.Context` — the tolerance and the two switches;
* `MatrixCalc.Context.make` — a context of a given tolerance, unless that is negative.
-/

import MatrixCalc.Decimal.Notation

set_option autoImplicit false

namespace MatrixCalc

/-- What all statements of a session share. -/
structure Context where
  /-- Magnitudes up to this count as zero when a matrix is inverted. -/
  zeroTolerance : Float
  /-- Whether a source text is left at the first statement that fails. -/
  crashOnError : Bool
  /-- Whether results are shown. -/
  echo : Bool
  /-- The tolerance is not negative; it may be no number at all. -/
  nonneg : ¬ zeroTolerance < 0

/-- Only an exact zero counts as zero, no failure ends a text, and results are shown. -/
def Context.usual : Context := ⟨0, false, true, by decide⟩

instance : Inhabited Context := ⟨Context.usual⟩

/-- A tolerance cannot be used. -/
inductive ToleranceError where
  /-- The tolerance is below zero. -/
  | negative (x : Float)

/-- What is said about a tolerance that cannot be used. -/
def ToleranceError.message : ToleranceError → String
  | negative x => "zero_tolerance must be non-negative, got " ++ Decimal.roundTrip.write x

/-- The context of a tolerance and two switches. -/
def Context.make (zeroTolerance : Float) (crashOnError echo : Bool) : Except ToleranceError Context :=
  if h : zeroTolerance < 0 then .error (.negative zeroTolerance)
  else .ok ⟨zeroTolerance, crashOnError, echo, h⟩

end MatrixCalc
