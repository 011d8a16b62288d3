import LuaBytecode.Constant.Format
import LuaBytecode.Prologue
import LuaBytecode.Prototype.Basic

/-!
# Writing a chunk

The canonical form of a tree of prototypes: every number in its shortest form, every flag as zero
or one, and every source as it stands in the tree, so that a tree with empty sources is written
with empty sources.  A table is its length and its entries.
-/

namespace LuaBytecode

/-- How a table is stored. -/
def encodeTable {α : Type} (entry : α → Bytes) (entries : List α) : Bytes :=
  Varint.encode entries.length ++ entries.flatMap entry

/-- How a line or a program counter is stored. -/
def encodeLine (n : UInt32) : Bytes := Varint.encode n.toNat

/-- How an entry of the upvalue table is stored. -/
def Upvalue.encode (u : Upvalue) : Bytes := [encodeFlag u.inStack, u.index, u.kind]

/-- How an entry of the table of anchors is stored. -/
def LineAnchor.encode (a : LineAnchor) : Bytes := encodeLine a.pc ++ encodeLine a.line

/-- How an entry of the table of local variables is stored. -/
def LocalVar.encode (v : LocalVar) : Bytes :=
  encodeString v.name ++ encodeLine v.startPc ++ encodeLine v.endPc

namespace Prototype

/-- The fields stored in front of the nested functions. -/
def encodeHead (p : Prototype) : Bytes :=
  encodeString p.source ++ encodeLine p.firstLine ++ encodeLine p.lastLine ++
    [p.paramCount, encodeFlag p.isVararg, p.stackSize] ++
    encodeTable (fun word => littleEndian 4 word.toNat) p.code ++
    encodeTable Constant.encode p.constants ++
    encodeTable Upvalue.encode p.upvalues

/-- The fields stored behind the nested functions. -/
def encodeTail (p : Prototype) : Bytes :=
  encodeTable (fun b => [b]) p.lineDeltas ++
    encodeTable LineAnchor.encode p.lineAnchors ++
    encodeTable LocalVar.encode p.localVars ++
    encodeTable encodeString p.upvalueNames

mutual

/-- How a function is stored. -/
def encode : Prototype → Bytes
  | p@⟨_, _, _, _, _, _, _, _, _, children, _, _, _, _⟩ =>
      p.encodeHead ++ Varint.encode children.length ++ encodeAll children ++ p.encodeTail

/-- Functions one behind the other. -/
def encodeAll : List Prototype → Bytes
  | [] => []
  | p :: ps => encode p ++ encodeAll ps

end

theorem encodeAll_eq (ps : List Prototype) : encodeAll ps = ps.flatMap encode := by
  induction ps with
  | nil => rfl
  | cons p ps ih => rw [encodeAll, ih, List.flatMap_cons]

theorem encode_eq (p : Prototype) :
    p.encode = p.encodeHead ++ Varint.encode p.children.length ++ p.children.flatMap encode ++
      p.encodeTail := by
  cases p
  rw [encode, encodeAll_eq]

/-- A chunk with a function as its main function; the count in front of it is one byte. -/
def encodeChunk (withSizes : Bool) (main : Prototype) : Bytes :=
  Prologue.encode withSizes ++ UInt8.ofNat main.upvalues.length :: main.encode

end Prototype

end LuaBytecode
