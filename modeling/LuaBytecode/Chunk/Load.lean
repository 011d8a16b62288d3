import LuaBytecode.Constant.Format
import LuaBytecode.Prologue
import LuaBytecode.Prototype.Source

/-!
# Loading a chunk

A chunk is the prologue, one byte with the number of upvalues of the main function, and the main
function.  A function is stored as its fields in a fixed order, the functions nested in it in the
middle.  Bytes behind the main function are not looked at.

A failed read carries the field and the depth it belongs to: `within` attaches them where a field
is read, so they name the field that holds the byte reading stopped at.  Nesting is bounded by
`maxDepth`.  The bound is what the recursion descends on: `room` counts how many levels may still
be entered, and a function at the last level may have no nested functions.
-/

namespace LuaBytecode

/-- What a loader is told about the chunks it reads. -/
structure LoaderSettings where
  /-- The prologue stores the sizes of instructions, integers and floats. -/
  checkTypeSizes : Bool
  /-- How deep functions may be nested. -/
  maxDepth : Nat
  deriving DecidableEq, Repr

/-- The usual prologue, and far deeper nesting than any compiler produces. -/
def LoaderSettings.standard : LoaderSettings := ⟨false, 200⟩

instance : Inhabited LoaderSettings := ⟨.standard⟩

/-- A read that fails with where in the chunk it failed. -/
abbrev Loader (α : Type) := EStateM LoadError Cursor α

/-- A read as part of a field at a depth. -/
def Decoder.within {α : Type} (read : Decoder α) (field : ChunkField) (depth : Nat) : Loader α :=
  fun c =>
    match read c with
    | .ok a c => .ok a c
    | .error fault c => .error ⟨fault, field, depth, c.offset⟩ c

namespace Loader

/-- A failure between two reads. -/
def fail {α : Type} (fault : Fault) (field : ChunkField) (depth : Nat) : Loader α :=
  Decoder.within (throw fault) field depth

/-- A table: its length, then its entries. -/
def table {α : Type} (entry : Decoder α) (field : ChunkField) (depth : Nat) : Loader (List α) :=
  Decoder.within (do Decoder.repeated (← Decoder.count) entry) field depth

/-- An entry of the upvalue table. -/
def upvalue : Decoder Upvalue := do
  let inStack ← Decoder.flag
  let index ← Decoder.byte
  let kind ← Decoder.byte
  pure ⟨inStack, index, kind⟩

/-- An entry of the table of anchors. -/
def lineAnchor : Decoder LineAnchor := do
  let pc ← Decoder.line
  let line ← Decoder.line
  pure ⟨pc, line⟩

/-- An entry of the table of local variables. -/
def localVar : Decoder LocalVar := do
  let name ← Decoder.byteString
  let startPc ← Decoder.line
  let endPc ← Decoder.line
  pure ⟨name, startPc, endPc⟩

/-- A function at a depth, inside a function from `enclosing`; `children` reads the functions nested
in it, given its own source. -/
def function (depth : Nat) (children : Bytes → Loader (List Prototype)) (enclosing : Bytes) :
    Loader Prototype := do
  let stored ← Decoder.byteString.within .source depth
  let source := ownSource enclosing stored
  let firstLine ← Decoder.line.within .firstLine depth
  let lastLine ← Decoder.line.within .lastLine depth
  let paramCount ← Decoder.byte.within .paramCount depth
  let isVararg ← Decoder.flag.within .varargFlag depth
  let stackSize ← Decoder.byte.within .stackSize depth
  let code ← table Decoder.uint32 .code depth
  let constants ← table Decoder.constant .constants depth
  let upvalues ← table upvalue .upvalues depth
  let children ← children source
  let lineDeltas ← table Decoder.byte .lineDeltas depth
  let lineAnchors ← table lineAnchor .lineAnchors depth
  let localVars ← table localVar .localVars depth
  let upvalueNames ← table Decoder.byteString .upvalueNames depth
  pure ⟨source, firstLine, lastLine, paramCount, isVararg, stackSize, code, constants, upvalues,
    children, lineDeltas, lineAnchors, localVars, upvalueNames⟩

/-- A tree of functions at a depth, with `room` further levels allowed below it. -/
def tree : (room depth : Nat) → (enclosing : Bytes) → Loader Prototype
  | 0, depth => function depth fun _ => do
      let n ← Decoder.count.within .children depth
      if n = 0 then pure [] else fail (.nestingTooDeep depth) .children depth
  | room + 1, depth => function depth fun source => do
      let n ← Decoder.count.within .children depth
      Decoder.repeated n (tree room (depth + 1) source)

/-- A chunk. -/
def chunk (settings : LoaderSettings) : Loader Prototype := do
  (Prologue.check settings.checkTypeSizes).within .prologue 0
  let declared ← Decoder.byte.within .upvalueCount 0
  let main ← tree settings.maxDepth 0 []
  if declared.toNat = main.upvalues.length then
    pure main
  else
    fail (.upvalueCountMismatch declared.toNat main.upvalues.length) .upvalueCount 0

end Loader

/-- The main function of a chunk. -/
def load (settings : LoaderSettings) (input : Bytes) : Except LoadError Prototype :=
  match Loader.chunk settings (Cursor.start input) with
  | .ok main _ => .ok main
  | .error e _ => .error e

/-- How many bytes of the input a load passes before it ends, well or not. -/
def reach (settings : LoaderSettings) (input : Bytes) : Nat :=
  match Loader.chunk settings (Cursor.start input) with
  | .ok _ c => c.offset
  | .error _ c => c.offset

theorem load_of_ok {settings : LoaderSettings} {input : Bytes} {main : Prototype} {c : Cursor}
    (h : Loader.chunk settings (Cursor.start input) = .ok main c) :
    load settings input = .ok main ∧ reach settings input = c.offset := by
  simp only [load, reach, h, and_self]

theorem load_of_error {settings : LoaderSettings} {input : Bytes} {e : LoadError} {c : Cursor}
    (h : Loader.chunk settings (Cursor.start input) = .error e c) :
    load settings input = .error e ∧ reach settings input = c.offset := by
  simp only [load, reach, h, and_self]

end LuaBytecode
