import LuaBytecode.Chunk.Load

/-!
# What stands behind a count

The length of a table comes before its entries, so a loader has it in hand while the entries may
not be there at all.  `leastEntry` says what the shortest entry of each table takes, and a count is
affordable if the bytes behind it could hold that many of them.

To speak of every count of a chunk at the place where it stands, the loader is written here once
more with the reading of counts left open.  With `Decoder.count` it is the loader of `Chunk.Load`
(`chunkBy_count`); with `affordable` it refuses every count that promises more than the input has.
-/

namespace LuaBytecode

/-- The fewest bytes an entry of a table takes. -/
def ChunkField.leastEntry : ChunkField → Nat
  | .code => 4
  | .constants => 1
  | .upvalues => 3
  | .children => 14
  | .lineDeltas => 1
  | .lineAnchors => 2
  | .localVars => 3
  | .upvalueNames => 1
  | _ => 0

/-- The length of a table, refused if it is more than the bytes behind it could hold. -/
def Decoder.affordable (field : ChunkField) : Decoder Nat := do
  let n ← Decoder.count
  let c ← get
  if n ≤ c.remaining / field.leastEntry then
    pure n
  else
    throw (.unexpectedEnd c.offset (n * field.leastEntry) c.remaining)

namespace Loader

variable (count : ChunkField → Decoder Nat)

/-- A table: its length, then its entries. -/
def tableBy {α : Type} (entry : Decoder α) (field : ChunkField) (depth : Nat) : Loader (List α) :=
  Decoder.within (do Decoder.repeated (← count field) entry) field depth

/-- A function at a depth, inside a function from `enclosing`. -/
def functionBy (depth : Nat) (children : Bytes → Loader (List Prototype)) (enclosing : Bytes) :
    Loader Prototype := do
  let stored ← Decoder.byteString.within .source depth
  let source := ownSource enclosing stored
  let firstLine ← Decoder.line.within .firstLine depth
  let lastLine ← Decoder.line.within .lastLine depth
  let paramCount ← Decoder.byte.within .paramCount depth
  let isVararg ← Decoder.flag.within .varargFlag depth
  let stackSize ← Decoder.byte.within .stackSize depth
  let code ← tableBy count Decoder.uint32 .code depth
  let constants ← tableBy count Decoder.constant .constants depth
  let upvalues ← tableBy count upvalue .upvalues depth
  let children ← children source
  let lineDeltas ← tableBy count Decoder.byte .lineDeltas depth
  let lineAnchors ← tableBy count lineAnchor .lineAnchors depth
  let localVars ← tableBy count localVar .localVars depth
  let upvalueNames ← tableBy count Decoder.byteString .upvalueNames depth
  pure ⟨source, firstLine, lastLine, paramCount, isVararg, stackSize, code, constants, upvalues,
    children, lineDeltas, lineAnchors, localVars, upvalueNames⟩

/-- A tree of functions at a depth, with `room` further levels allowed below it. -/
def treeBy : (room depth : Nat) → (enclosing : Bytes) → Loader Prototype
  | 0, depth => functionBy count depth fun _ => do
      let n ← (count .children).within .children depth
      if n = 0 then pure [] else fail (.nestingTooDeep depth) .children depth
  | room + 1, depth => functionBy count depth fun source => do
      let n ← (count .children).within .children depth
      Decoder.repeated n (treeBy room (depth + 1) source)

/-- A chunk. -/
def chunkBy (settings : LoaderSettings) : Loader Prototype := do
  (Prologue.check settings.checkTypeSizes).within .prologue 0
  let declared ← Decoder.byte.within .upvalueCount 0
  let main ← treeBy count settings.maxDepth 0 []
  if declared.toNat = main.upvalues.length then
    pure main
  else
    fail (.upvalueCountMismatch declared.toNat main.upvalues.length) .upvalueCount 0

theorem treeBy_count (room : Nat) :
    treeBy (fun _ => Decoder.count) room = tree room := by
  induction room with
  | zero => rfl
  | succ room ih =>
      funext depth
      rw [treeBy, ih]
      rfl

/-- With counts read as they are, this is the loader. -/
theorem chunkBy_count (settings : LoaderSettings) :
    chunkBy (fun _ => Decoder.count) settings = chunk settings := by
  rw [chunkBy, treeBy_count]
  rfl

end Loader

/-- The main function of a chunk, with a way to read counts. -/
def loadBy (count : ChunkField → Decoder Nat) (settings : LoaderSettings) (input : Bytes) :
    Except LoadError Prototype :=
  match Loader.chunkBy count settings (Cursor.start input) with
  | .ok main _ => .ok main
  | .error e _ => .error e

theorem loadBy_count (settings : LoaderSettings) (input : Bytes) :
    loadBy (fun _ => Decoder.count) settings input = load settings input := by
  rw [loadBy, Loader.chunkBy_count]
  rfl

end LuaBytecode
