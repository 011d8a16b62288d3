import LuaBytecode.Document
import LuaBytecode.Instruction.Display

/-!
# The instruction set as a table

A line for each opcode with its number, its mnemonic, its mode and the letters of what is known of
it, or the same as a JSON document.
-/

namespace LuaBytecode

/-- A text filled up with blanks in front to a width. -/
def padLeft (width : Nat) (text : String) : String :=
  String.ofList (List.replicate (width - text.length) ' ') ++ text

namespace OpcodeTable

/-- A line of the table. -/
def row (id name mode flags : String) : String :=
  s!"{padLeft 3 id}  {padRight 12 name} {padRight 6 mode} {flags}\n"

/-- The letters of what is known of an opcode. -/
def flags (info : OpcodeInfo) : String :=
  let letters :=
    [(info.isMetamethod, "mm"), (info.setsTop, "ot"), (info.usesTop, "it"), (info.isTest, "t"),
     (info.setsA, "a")]
  ",".intercalate ((letters.filter (·.1)).map (·.2))

/-- The line of an opcode. -/
def opcodeRow (id : Nat) (op : Opcode) : String :=
  row (toString id) op.name op.mode.name (flags op.info)

def text : String :=
  row "id" "name" "mode" "flags" ++ String.join (Opcode.all.mapIdx opcodeRow)

def document : Json := .array (Opcode.all.map fun op => op.info.document)

end OpcodeTable

end LuaBytecode
