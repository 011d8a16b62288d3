import LuaBytecode.Prologue
import LuaBytecode.Session

/-!
# The prologue as values

A prologue field is not only bytes: the version is a number, and the sentinels are an integer and a
float that read back as something else under another byte order or another format of floats.
`typedFields` says of each field how it is read and what it must be, and `checkValues` reads it so
and compares the values.  The float is compared by its bits, so no other number and no NaN passes
for it.
-/

namespace LuaBytecode

instance FixedRead.decEqValue : (r : FixedRead) → DecidableEq r.Value
  | .byte => inferInstanceAs (DecidableEq UInt8)
  | .bytes _ => inferInstanceAs (DecidableEq Bytes)
  | .uint32 => inferInstanceAs (DecidableEq UInt32)
  | .uint64 => inferInstanceAs (DecidableEq UInt64)
  | .int64 => inferInstanceAs (DecidableEq Int64)
  | .float64 => inferInstanceAs (DecidableEq Binary64)

namespace Prologue

/-- A field with how it is read and the value it must have. -/
structure TypedField where
  field : PrologueField
  read : FixedRead
  value : read.Value
  /-- The value is one that the read can give. -/
  length_encode : (read.encode value).length = read.width

/-- The integer that the prologue ends with, in front of the float. -/
def sentinelInteger : Int64 := 0x5678

/-- The float that the prologue ends with, 370.5. -/
def sentinelFloat : Binary64 := ⟨0x4077280000000000⟩

/-- The fields in order, with the values they must have. -/
def typedFields (withSizes : Bool) : List TypedField :=
  [⟨.signature, .bytes 4, [0x1B, 0x4C, 0x75, 0x61], rfl⟩,
   ⟨.version, .byte, (0x54 : UInt8), rfl⟩,
   ⟨.format, .byte, (0 : UInt8), rfl⟩,
   ⟨.platformData, .bytes 6, [0x19, 0x93, 0x0D, 0x0A, 0x1A, 0x0A], rfl⟩] ++
  (if withSizes then
    [⟨.instructionSize, .byte, (4 : UInt8), rfl⟩,
     ⟨.integerSize, .byte, (8 : UInt8), rfl⟩,
     ⟨.numberSize, .byte, (8 : UInt8), rfl⟩]
   else []) ++
  [⟨.sentinelInteger, .int64, sentinelInteger, rfl⟩,
   ⟨.sentinelFloat, .uint64, sentinelFloat.bits, rfl⟩]

/-- Reads one field and compares the value with what it must be. -/
def checkValue (f : TypedField) : Decoder Unit := do
  let found ← f.read.decoder
  if found = f.value then pure () else throw (.prologueMismatch f.field)

/-- Reads the prologue value by value. -/
def checkValues (withSizes : Bool) : Decoder Unit :=
  (typedFields withSizes).forM checkValue

end Prologue

end LuaBytecode
