import LuaBytecode.Chunk.Encode

/-!
# What each byte of a chunk belongs to

The canonical form of a tree with every byte marked with the field it is part of and the depth of
the function that has the field.  The marks of a function surround those of its children, which are
one level deeper.
-/

namespace LuaBytecode

/-- The mark of a byte: a field, and how many functions enclose the one that has it. -/
abbrev Label := ChunkField × Nat

/-- Some bytes, all with one mark. -/
def labelled (field : ChunkField) (depth : Nat) (bytes : Bytes) : List Label :=
  List.replicate bytes.length (field, depth)

namespace Prototype

/-- The marks of the fields in front of the nested functions. -/
def labelHead (depth : Nat) (p : Prototype) : List Label :=
  labelled .source depth (encodeString p.source) ++
    labelled .firstLine depth (encodeLine p.firstLine) ++
    labelled .lastLine depth (encodeLine p.lastLine) ++
    [(.paramCount, depth), (.varargFlag, depth), (.stackSize, depth)] ++
    labelled .code depth (encodeTable (fun word => littleEndian 4 word.toNat) p.code) ++
    labelled .constants depth (encodeTable Constant.encode p.constants) ++
    labelled .upvalues depth (encodeTable Upvalue.encode p.upvalues)

/-- The marks of the fields behind the nested functions. -/
def labelTail (depth : Nat) (p : Prototype) : List Label :=
  labelled .lineDeltas depth (encodeTable (fun b => [b]) p.lineDeltas) ++
    labelled .lineAnchors depth (encodeTable LineAnchor.encode p.lineAnchors) ++
    labelled .localVars depth (encodeTable LocalVar.encode p.localVars) ++
    labelled .upvalueNames depth (encodeTable encodeString p.upvalueNames)

mutual

/-- The marks of a function at a depth. -/
def labels (depth : Nat) : Prototype → List Label
  | p@⟨_, _, _, _, _, _, _, _, _, children, _, _, _, _⟩ =>
      p.labelHead depth ++ labelled .children depth (Varint.encode children.length) ++
        labelsAll (depth + 1) children ++ p.labelTail depth

/-- The marks of functions one behind the other. -/
def labelsAll (depth : Nat) : List Prototype → List Label
  | [] => []
  | p :: ps => labels depth p ++ labelsAll depth ps

end

theorem labelsAll_eq (depth : Nat) (ps : List Prototype) :
    labelsAll depth ps = ps.flatMap (labels depth) := by
  induction ps with
  | nil => rfl
  | cons p ps ih => rw [labelsAll, ih, List.flatMap_cons]

theorem labels_eq (depth : Nat) (p : Prototype) :
    p.labels depth = p.labelHead depth ++
      labelled .children depth (Varint.encode p.children.length) ++
      p.children.flatMap (labels (depth + 1)) ++ p.labelTail depth := by
  cases p
  rw [labels, labelsAll_eq]

/-- The marks of a chunk with a function as its main function. -/
def labelsChunk (withSizes : Bool) (main : Prototype) : List Label :=
  labelled .prologue 0 (Prologue.encode withSizes) ++ (.upvalueCount, 0) :: main.labels 0

end Prototype

end LuaBytecode
