/-!
# What can go wrong

Every failure is a cause, not a text: `Fault` lists the causes, `LoadError` adds where in a chunk
the loader stood, and `Fault.message` and `LoadError.message` are the only places that word them.
-/

namespace LuaBytecode

/-- The fields of the fixed prologue, in the order they are stored. -/
inductive PrologueField where
  | signature
  | version
  | format
  | platformData
  | instructionSize
  | integerSize
  | numberSize
  | sentinelInteger
  | sentinelFloat
  deriving DecidableEq, Repr, Inhabited

/-- How a prologue field is called in messages. -/
def PrologueField.name : PrologueField → String
  | .signature => "signature"
  | .version => "version"
  | .format => "format"
  | .platformData => "platform data"
  | .instructionSize => "instruction size"
  | .integerSize => "integer size"
  | .numberSize => "number size"
  | .sentinelInteger => "sentinel integer"
  | .sentinelFloat => "sentinel float"

/-- The parts of a chunk the loader can be reading, in the order they are stored; `input` is the
stream the chunk comes from. -/
inductive ChunkField where
  | input
  | prologue
  | upvalueCount
  | source
  | firstLine
  | lastLine
  | paramCount
  | varargFlag
  | stackSize
  | code
  | constants
  | upvalues
  | children
  | lineDeltas
  | lineAnchors
  | localVars
  | upvalueNames
  deriving DecidableEq, Repr, Inhabited

/-- How a part of a chunk is called in messages. -/
def ChunkField.name : ChunkField → String
  | .input => "input"
  | .prologue => "header"
  | .upvalueCount => "upvalue count"
  | .source => "source"
  | .firstLine => "line defined"
  | .lastLine => "last line defined"
  | .paramCount => "parameter count"
  | .varargFlag => "vararg flag"
  | .stackSize => "stack size"
  | .code => "code"
  | .constants => "constants"
  | .upvalues => "upvalues"
  | .children => "nested functions"
  | .lineDeltas => "line info"
  | .lineAnchors => "absolute line info"
  | .localVars => "local variables"
  | .upvalueNames => "upvalue names"

/-- The causes of failure.  Offsets count from the start of the input. -/
inductive Fault where
  /-- Fewer bytes are left than a read of known length needs. -/
  | unexpectedEnd (offset needed available : Nat)
  /-- The input ends inside a number of variable length that starts at `offset`. -/
  | malformedVarint (offset : Nat)
  /-- The number of variable length that starts at `offset` is above its limit. -/
  | integerOverflow (offset limit : Nat)
  /-- A prologue field does not have the one value it may have. -/
  | prologueMismatch (field : PrologueField)
  /-- No kind of constant has this tag. -/
  | unknownConstantTag (tag : UInt8)
  /-- The count in front of the main function is not the length of its upvalue table. -/
  | upvalueCountMismatch (declared actual : Nat)
  /-- No opcode has this number. -/
  | unknownOpcode (id : UInt8)
  /-- A function at the deepest level allowed has nested functions. -/
  | nestingTooDeep (limit : Nat)
  /-- The stream broke before it ended. -/
  | brokenStream (reason : String)
  deriving DecidableEq, Repr, Inhabited

/-- A digit of a hexadecimal numeral, in lower case. -/
def hexDigit (d : Nat) : Char := Nat.digitChar (d % 16)

/-- The low `width` hexadecimal digits of a number, most significant first. -/
def hexadecimal : (width : Nat) → Nat → List Char
  | 0, _ => []
  | width + 1, n => hexadecimal width (n / 16) ++ [hexDigit n]

/-- The wording of a cause. -/
def Fault.message : Fault → String
  | .unexpectedEnd offset needed available =>
      s!"Unexpected end of input at offset {offset}: need {needed} byte(s), {available} left"
  | .malformedVarint offset =>
      s!"Malformed varint at offset {offset}: input ended before the final byte"
  | .integerOverflow offset limit =>
      s!"Integer overflow at offset {offset}: value exceeds {limit}"
  | .prologueMismatch field => s!"Header mismatch: bad {field.name}"
  | .unknownConstantTag tag =>
      "Unknown constant tag 0x" ++ String.ofList (hexadecimal 2 tag.toNat)
  | .upvalueCountMismatch declared actual =>
      s!"Upvalue count mismatch: chunk declares {declared}, main function has {actual}"
  | .unknownOpcode id => s!"Unknown opcode: {id.toNat}"
  | .nestingTooDeep limit => s!"Function nesting exceeds {limit} levels"
  | .brokenStream reason => s!"IO error: {reason}"

/-- A failed load: the cause, the part of the chunk that was being read, how many functions
enclose the one being read, and how far reading had come. -/
structure LoadError where
  fault : Fault
  field : ChunkField
  depth : Nat
  offset : Nat
  deriving DecidableEq, Repr, Inhabited

/-- The wording of a failed load. -/
def LoadError.message (e : LoadError) : String :=
  s!"{e.fault.message} (while reading {e.field.name} at depth {e.depth}, byte {e.offset})"

end LuaBytecode
