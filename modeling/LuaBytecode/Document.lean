import LuaBytecode.Instruction.Word
import LuaBytecode.Json
import LuaBytecode.Prototype.Basic
import LuaBytecode.Text.Utf8

/-!
# The model as JSON

Every value of the model as a JSON document.  A record is an object with its fields in order, a
choice between kinds is an object with the kind as its only member, and a byte string is the text
it encodes.
-/

namespace LuaBytecode

/-- A choice of kind `kind` with its content. -/
def Json.tagged (kind : String) (content : Json) : Json := .object [(kind, content)]

/-- A byte string as text. -/
def Json.text (bytes : Bytes) : Json := .string (Utf8.lossy bytes)

/-- A constant; a kind without content is just its name. -/
def Constant.document : Constant → Json
  | .nil => .string "Nil"
  | .boolean value => .tagged "Boolean" (.bool value)
  | .float value => .tagged "Float" (.float value)
  | .integer value => .tagged "Integer" (.integer value.toInt)
  | .string bytes => .tagged "String" (.text bytes)

def Upvalue.document (u : Upvalue) : Json :=
  .object [("in_stack", .bool u.inStack), ("index", .nat u.index.toNat),
    ("kind", .nat u.kind.toNat)]

def LineAnchor.document (a : LineAnchor) : Json :=
  .object [("pc", .nat a.pc.toNat), ("line", .nat a.line.toNat)]

def LocalVar.document (v : LocalVar) : Json :=
  .object [("name", .text v.name), ("start_pc", .nat v.startPc.toNat),
    ("end_pc", .nat v.endPc.toNat)]

namespace Prototype

/-- The fields of a function as members of its document, given the documents of the functions
nested in it. -/
def members (p : Prototype) (children : List Json) : List (String × Json) :=
  [("source", .text p.source),
   ("line_defined", .nat p.firstLine.toNat),
   ("last_line_defined", .nat p.lastLine.toNat),
   ("num_params", .nat p.paramCount.toNat),
   ("is_vararg", .bool p.isVararg),
   ("max_stack_size", .nat p.stackSize.toNat),
   ("code", .array (p.code.map fun word => .nat word.toNat)),
   ("constants", .array (p.constants.map Constant.document)),
   ("upvalues", .array (p.upvalues.map Upvalue.document)),
   ("protos", .array children),
   ("line_info", .array (p.lineDeltas.map fun b => .nat b.toNat)),
   ("abs_line_info", .array (p.lineAnchors.map LineAnchor.document)),
   ("loc_vars", .array (p.localVars.map LocalVar.document)),
   ("upvalue_names", .array (p.upvalueNames.map .text))]

mutual

/-- A function with the functions nested in it. -/
def document : Prototype → Json
  | p@⟨_, _, _, _, _, _, _, _, _, children, _, _, _, _⟩ =>
      .object (p.members (documents [] children))

/-- The documents of functions in order; `done` holds those written so far, last first. -/
def documents (done : List Json) : List Prototype → List Json
  | [] => done.reverse
  | p :: ps => documents (document p :: done) ps

end

end Prototype

/-- What an operand mode is called in a document. -/
def OperandMode.kind : OperandMode → String
  | .abc => "Abc"
  | .abx => "Abx"
  | .asbx => "AsBx"
  | .ax => "Ax"
  | .sj => "Sj"

/-- The operands of an instruction. -/
def Operands.document (operands : Operands) : Json :=
  .tagged operands.mode.kind <| .object <| match operands with
    | .abc a k b c =>
        [("a", .nat a.toNat), ("k", .bool k), ("b", .nat b.toNat), ("c", .nat c.toNat)]
    | .abx a bx => [("a", .nat a.toNat), ("bx", .nat bx.toNat)]
    | .asbx a sbx => [("a", .nat a.toNat), ("sbx", .integer sbx.toInt)]
    | .ax field => [("ax", .nat field.toNat)]
    | .sj offset => [("sj", .integer offset.toInt)]

/-- What is known of an opcode. -/
def OpcodeInfo.document (info : OpcodeInfo) : Json :=
  .object [("name", .string info.name), ("mode", .string info.mode.kind),
    ("sets_a", .bool info.setsA), ("is_test", .bool info.isTest),
    ("uses_top", .bool info.usesTop), ("sets_top", .bool info.setsTop),
    ("is_metamethod", .bool info.isMetamethod)]

end LuaBytecode
