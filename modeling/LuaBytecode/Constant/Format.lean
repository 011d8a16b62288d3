import LuaBytecode.Constant.Basic
import LuaBytecode.Varint

/-!
# How constants and strings are stored

A string is its size plus one, as a number of variable length, and then its bytes; size zero is a
second form of the empty string.  A constant is a tag and, depending on it, a payload.  Short and
long strings have tags of their own but are read alike, so of the two the writer picks by length.
-/

namespace LuaBytecode

/-- The tags a constant can start with. -/
inductive ConstantTag where
  | nil
  | boolean
  | float
  | integer
  | shortString
  | longString
  deriving DecidableEq, Repr

namespace ConstantTag

/-- The byte a tag is stored as. -/
def toByte : ConstantTag → UInt8
  | .nil => 0x00
  | .boolean => 0x01
  | .float => 0x03
  | .integer => 0x13
  | .shortString => 0x04
  | .longString => 0x14

/-- The tag a byte stands for. -/
def ofByte? (b : UInt8) : Option ConstantTag :=
  if b = 0x00 then some .nil
  else if b = 0x01 then some .boolean
  else if b = 0x03 then some .float
  else if b = 0x13 then some .integer
  else if b = 0x04 then some .shortString
  else if b = 0x14 then some .longString
  else none

theorem ofByte?_toByte (tag : ConstantTag) : ofByte? tag.toByte = some tag := by
  cases tag <;> rfl

end ConstantTag

namespace Decoder

/-- A string: nothing behind a size of zero, otherwise one byte less than the size says. -/
def byteString : Decoder Bytes := do
  match ← count with
  | 0 => pure []
  | size + 1 => take size

/-- The payload behind a tag. -/
def payload : ConstantTag → Decoder Constant
  | .nil => pure .nil
  | .boolean => .boolean <$> flag
  | .float => (.float ⟨·⟩) <$> uint64
  | .integer => .integer <$> int64
  | .shortString => .string <$> byteString
  | .longString => .string <$> byteString

/-- A constant: a tag, then its payload. -/
def constant : Decoder Constant := do
  let b ← byte
  match ConstantTag.ofByte? b with
  | some tag => payload tag
  | none => throw (.unknownConstantTag b)

end Decoder

/-- Strings up to this length are stored as short ones. -/
def maxShortLength : Nat := 40

/-- How a string is stored. -/
def encodeString (bytes : Bytes) : Bytes :=
  if bytes.isEmpty then Varint.encode 0 else Varint.encode (bytes.length + 1) ++ bytes

/-- How a flag is stored. -/
def encodeFlag (value : Bool) : UInt8 := if value then 1 else 0

namespace Constant

/-- The tag a constant is stored with. -/
def tag : Constant → ConstantTag
  | .nil => .nil
  | .boolean _ => .boolean
  | .float _ => .float
  | .integer _ => .integer
  | .string bytes => if maxShortLength < bytes.length then .longString else .shortString

/-- How a constant is stored. -/
def encode (k : Constant) : Bytes :=
  k.tag.toByte :: match k with
    | .nil => []
    | .boolean value => [encodeFlag value]
    | .float value => littleEndian 8 value.bits.toNat
    | .integer value => littleEndian 8 value.toUInt64.toNat
    | .string bytes => encodeString bytes

end Constant

end LuaBytecode
