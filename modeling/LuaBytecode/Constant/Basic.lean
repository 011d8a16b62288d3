import LuaBytecode.Bytes
import LuaBytecode.Number.Binary64

/-!
# Constants

The values a function's constant table can hold.  Numbers keep their two kinds apart, and a string
is whatever bytes it was stored with.
-/

namespace LuaBytecode

/-- A value in a constant table. -/
inductive Constant where
  | nil
  | boolean (value : Bool)
  | float (value : Binary64)
  | integer (value : Int64)
  | string (bytes : Bytes)
  deriving DecidableEq, Repr, Inhabited

namespace Constant

/-- Of either kind of number. -/
def isNumber : Constant → Bool
  | .float _ => true
  | .integer _ => true
  | _ => false

def isString (k : Constant) : Bool :=
  match k with
  | .string _ => true
  | _ => false

/-- The value of an integer constant; a float is not one, even if it is whole. -/
def integer? : Constant → Option Int64
  | .integer value => some value
  | _ => none

/-- The value of a float constant; an integer is not one. -/
def float? : Constant → Option Binary64
  | .float value => some value
  | _ => none

/-- The bytes of a string constant. -/
def string? : Constant → Option Bytes
  | .string bytes => some bytes
  | _ => none

end Constant

end LuaBytecode
