/-
**What a client can set.**

A client sends settings as structured data.  The tolerance may be given as a number, as a truth value
or as the text of a number, and is taken if it is not negative; whether a text is evaluated while it is
being changed may be given as anything.

Main definitions:

* `MatrixCalc.Editor.ClientValue` — the data that a client sends;
* `MatrixCalc.Editor.ClientValue.number?`, `MatrixCalc.Editor.ClientValue.isTrue` — data as a number and
  as a truth value;
* `MatrixCalc.Editor.Settings` — the settings;
* `MatrixCalc.Editor.Settings.apply` — the settings with those that a client sends.
-/

import MatrixCalc.Decimal.Numeral
import MatrixCalc.Decimal.Order
import MatrixCalc.Evaluation.Context

set_option autoImplicit false

namespace MatrixCalc

namespace Editor

/-- The data that a client sends. -/
inductive ClientValue where
  /-- Nothing. -/
  | null
  /-- A truth value. -/
  | flag (b : Bool)
  /-- A whole number. -/
  | whole (n : Int)
  /-- Another number. -/
  | real (x : Float)
  | text (s : String)
  | list (items : List ClientValue)
  /-- A record of named fields. -/
  | record (fields : List (String × ClientValue))
  deriving Inhabited

/-- A setting cannot be used. -/
inductive SettingError where
  /-- A whole number is beyond all doubles. -/
  | tooLarge
  deriving DecidableEq, Repr

/-- What is said about a setting that cannot be used. -/
def SettingError.message : SettingError → String
  | tooLarge => "int too large to convert to float"

namespace ClientValue

/-- The double nearest to a whole number, unless that is infinite. -/
def ofWhole (n : Int) : Except SettingError Float :=
  let x := Decimal.Numeral.toFloat ⟨n.natAbs, 0⟩
  if x == Decimal.infinity then .error .tooLarge else .ok (if n < 0 then -x else x)

/-- The number that the data stand for, if they stand for one. -/
def number? : ClientValue → Except SettingError (Option Float)
  | flag b => .ok (some (if b then 1 else 0))
  | whole n => (ofWhole n).map some
  | real x => .ok (some x)
  | text s => .ok (Decimal.read? s)
  | _ => .ok none

/-- Whether the data count as true: all do but nothing, the false truth value, zero, and what is
empty. -/
def isTrue : ClientValue → Bool
  | null => false
  | flag b => b
  | whole n => n != 0
  | real x => !(x == 0)
  | text s => s != ""
  | list items => !items.isEmpty
  | record fields => !fields.isEmpty

/-- The fields of a record; other data have none. -/
def fields : ClientValue → List (String × ClientValue)
  | record fs => fs
  | _ => []

end ClientValue

/-- The settings. -/
structure Settings where
  /-- Magnitudes up to this count as zero when a matrix is inverted. -/
  zeroTolerance : Float
  /-- Whether a text is evaluated while it is being changed. -/
  evaluateOnChange : Bool
  /-- The tolerance is a number that is not negative. -/
  nonneg : 0 ≤ zeroTolerance

namespace Settings

/-- Only an exact zero counts as zero, and a text is not evaluated while it is being changed. -/
def usual : Settings := ⟨0, false, by decide⟩

instance : Inhabited Settings := ⟨usual⟩

/-- The context in which texts are evaluated. -/
def context (s : Settings) : Context := ⟨s.zeroTolerance, false, false, Decimal.not_lt_of_le s.nonneg⟩

/-- The settings with another tolerance, if that is a number that is not negative. -/
def setTolerance (s : Settings) (x : Float) : Settings :=
  if h : 0 ≤ x then { s with zeroTolerance := x, nonneg := h } else s

/-- The name of the setting for the tolerance. -/
def toleranceKey : String := "zeroTolerance"

/-- The name of the setting for evaluation during changes. -/
def onChangeKey : String := "evaluateOnChange"

/-- The settings with the tolerance that a client sends, if it sends one. -/
def applyTolerance (s : Settings) (fields : List (String × ClientValue)) :
    Except SettingError Settings :=
  match fields.lookup toleranceKey with
  | none => .ok s
  | some v => v.number?.map fun
    | none => s
    | some x => s.setTolerance x

/-- The settings with the choice about changes that a client sends, if it sends one. -/
def applyOnChange (s : Settings) (fields : List (String × ClientValue)) : Settings :=
  match fields.lookup onChangeKey with
  | none => s
  | some v => { s with evaluateOnChange := v.isTrue }

/-- The settings with those that a client sends. -/
def apply (s : Settings) (fields : List (String × ClientValue)) : Except SettingError Settings :=
  (s.applyTolerance fields).map fun t => t.applyOnChange fields

/-- The name under which a client keeps the settings of the calculator among others. -/
def sectionKey : String := "convector"

/-- The settings of the calculator among the configuration of a client. -/
def sectionOf (configuration : ClientValue) : List (String × ClientValue) :=
  ((configuration.fields.lookup sectionKey).map ClientValue.fields).getD []

end Settings

end Editor

end MatrixCalc
