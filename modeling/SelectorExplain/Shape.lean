import SelectorExplain.Decimal.Shortest
import SelectorExplain.Text.Quoted

set_option autoImplicit false

/-! # Values of the wrong shape

Trees are read from JSON and settings from JSON or TOML. When a value is read well but is not what
was asked for, the report is the same in both formats, but for the spelling of numbers. -/

namespace SelectorExplain

/-- What was found instead. -/
inductive Found where
  | null
  | bool (b : Bool)
  | integer (n : Int)
  | float (x : Real64)
  | string (s : String)
  | sequence
  | map
  | unitVariant
  deriving DecidableEq, Repr

/-- What was found, in words, with `number` spelling floating point numbers. -/
def Found.description (number : Real64 → String) : Found → String
  | null => "null"
  | bool b => "boolean `" ++ (if b then "true" else "false") ++ "`"
  | integer n => "integer `" ++ toString n ++ "`"
  | float x => "floating point `" ++ number x ++ "`"
  | string s => "string " ++ Quoted.quote s
  | sequence => "sequence"
  | map => "map"
  | unitVariant => "unit variant"

/-- How a value fails to be what was asked for. -/
inductive Mismatch where
  /-- A value of one type where another is expected. -/
  | wrongType (found : Found) (expected : String)
  /-- A value of the right type outside the expected range. -/
  | wrongValue (found : Found) (expected : String)
  /-- A list that is too short for the fields of a record. -/
  | wrongLength (length : Nat) (expected : String)
  | missingField (name : String)
  | duplicateField (name : String)
  | unknownVariant (name : String) (known : List String)
  deriving DecidableEq, Repr

/-- The wording of a mismatch. -/
def Mismatch.message (number : Real64 → String) : Mismatch → String
  | wrongType found expected =>
    "invalid type: " ++ found.description number ++ ", expected " ++ expected
  | wrongValue found expected =>
    "invalid value: " ++ found.description number ++ ", expected " ++ expected
  | wrongLength length expected =>
    "invalid length " ++ toString length ++ ", expected " ++ expected
  | missingField name => "missing field `" ++ name ++ "`"
  | duplicateField name => "duplicate field `" ++ name ++ "`"
  | unknownVariant name known =>
    "unknown variant `" ++ name ++ "`, expected one of " ++
      ", ".intercalate (known.map fun k => "`" ++ k ++ "`")

end SelectorExplain
