import LuaBytecode.Cursor

/-!
# The prologue of a chunk

A chunk starts with fields that can have one value each.  `Prologue.fields` lists them in the order
they are stored; checking the prologue is reading each field whole and comparing it, so the field
that is blamed is the first that is cut short or different.  Nothing is converted: a chunk of
another byte order fails at the sentinels.

A variant of the format also stores the sizes of instructions, integers and floats.
-/

namespace LuaBytecode

namespace Prologue

/-- The fields in order, with the bytes they must have. -/
def fields (withSizes : Bool) : List (PrologueField × Bytes) :=
  [(.signature, [0x1B, 0x4C, 0x75, 0x61]),
   (.version, [0x54]),
   (.format, [0x00]),
   (.platformData, [0x19, 0x93, 0x0D, 0x0A, 0x1A, 0x0A])] ++
  (if withSizes then
    [(.instructionSize, [4]), (.integerSize, [8]), (.numberSize, [8])]
   else []) ++
  [(.sentinelInteger, [0x78, 0x56, 0, 0, 0, 0, 0, 0]),
   (.sentinelFloat, [0, 0, 0, 0, 0, 0x28, 0x77, 0x40])]

/-- How the prologue is stored. -/
def encode (withSizes : Bool) : Bytes := (fields withSizes).flatMap (·.2)

/-- Reads one field and compares it with what it must be. -/
def checkField (field : PrologueField) (expected : Bytes) : Decoder Unit := do
  let found ← Decoder.take expected.length
  if found = expected then pure () else throw (.prologueMismatch field)

/-- Reads the given fields in order. -/
def checkFields : List (PrologueField × Bytes) → Decoder Unit
  | [] => pure ()
  | (field, expected) :: rest => do
      checkField field expected
      checkFields rest

/-- Reads the prologue, and fails at the first field that is not as it must be. -/
def check (withSizes : Bool) : Decoder Unit := checkFields (fields withSizes)

theorem length_encode (withSizes : Bool) :
    (encode withSizes).length = if withSizes then 31 else 28 := by
  cases withSizes <;> rfl

end Prologue

end LuaBytecode
