import LuaBytecode.Constant.Basic
import LuaBytecode.Number.Layout
import LuaBytecode.Text.Quoted

/-!
# Constants in a listing

Each kind of constant has its own form, so that the form shows the kind: a float always has a
point, an exponent or a name, an integer never, and a string always has its quotes.
-/

namespace LuaBytecode

namespace Constant

/-- A listing keeps fourteen significant digits of a float. -/
def floatPrecision : Nat := 14

/-- A listing writes numbers from a ten-thousandth up to as many places as it keeps digits without
an exponent part; an exponent part has a sign and two digits at least. -/
def floatLayout : Layout where
  lowest := -4
  highest := floatPrecision - 1
  plusSign := true
  exponentWidth := 2

/-- A finite float to the precision of a listing. -/
def roundFloat (x : Binary64) : Decimal :=
  Decimal.rounded floatPrecision x.magnitude Binary64.unitsPerOne

/-- A float in a listing. -/
def displayFloat (x : Binary64) : List Char :=
  if x.isFinite then floatLayout.writeFinite roundFloat x
  else if x.isNaN then "nan".toList
  else if x.isNegative then "-inf".toList
  else "inf".toList

/-- A constant in a listing. -/
def display : Constant → String
  | .nil => "nil"
  | .boolean value => if value then "true" else "false"
  | .float value => String.ofList (displayFloat value)
  | .integer value => toString value.toInt
  | .string bytes => String.ofList (Quoted.encode bytes)

/-- The letter a listing marks the kind of a constant with. -/
def kindLetter : Constant → String
  | .nil => "N"
  | .boolean _ => "B"
  | .float _ => "F"
  | .integer _ => "I"
  | .string _ => "S"

end Constant

end LuaBytecode
