import LuaBytecode.Chunk.Load
import Mathlib.Tactic.SplitIfs

/-!
# Properties of readings that sequencing keeps

`Decoder` and `Loader` differ only in what a failure carries, so what is said about sequencing is
said once, for a `Reading`.  Much of what is true of the loader is true of it for one reason: it
holds of the few reads that touch the input, and running one reading behind another keeps it.  This
file makes that reason a theorem.

* `Parallel` — a relation of two readings that those without input have and that `>>=` keeps.  It
  then passes to `<$>` and to `repeated`.
* `Sequential` — the same for a property of one reading.
* `Elementary` — a sequential property of decoders that the reads all others are made of have.
* `Primitive` — an elementary property that the failures decoders find by themselves have as well.
  It then holds of every decoder (`Primitive.fieldRead`).
* `FieldRead` — which decoder reads which field of a function.
* `Parallel.function` — functions are related if their field reads are related to themselves and the
  ways to read their children are related.
* **`Sequential.treeUpTo`** — a sequential property of loaders that the field reads have up to a
  depth holds of whole trees of functions up to it; `Sequential.tree` is the case of a property that
  does not depend on the depth, and `Sequential.chunk` adds what stands in front of the tree.

`Parallel.function` walks through the fields of a function for the sake of every such property or
relation of the loader with itself.
-/

namespace LuaBytecode

/-- A read from a cursor, with failures of any kind. -/
abbrev Reading (ε α : Type) := EStateM ε Cursor α

namespace Reading

variable {ε α β : Type} {x : Reading ε α} {f : α → Reading ε β} {c c' : Cursor}

/-! ## What a sequence does -/

theorem bind_of_ok {a : α} (h : x c = .ok a c') : (x >>= f) c = f a c' := by
  simp only [bind, EStateM.bind, h]

theorem bind_of_error {e : ε} (h : x c = .error e c') : (x >>= f) c = .error e c' := by
  simp only [bind, EStateM.bind, h]

/-- **A sequence succeeds exactly when both parts do**, the second from where the first ended. -/
theorem bind_eq_ok_iff {b : β} {c'' : Cursor} :
    (x >>= f) c = .ok b c'' ↔ ∃ a c', x c = .ok a c' ∧ f a c' = .ok b c'' := by
  constructor
  · intro h
    cases hx : x c with
    | ok a c' => exact ⟨a, c', rfl, by rw [← h, bind_of_ok hx]⟩
    | error e c' => rw [bind_of_error hx] at h; cases h
  · rintro ⟨a, c', hx, hf⟩
    rw [bind_of_ok hx, hf]

theorem within_of_ok {read : Decoder α} {field : ChunkField} {depth : Nat} {c c' : Cursor} {a : α}
    (h : read c = .ok a c') : read.within field depth c = .ok a c' := by
  simp only [Decoder.within, h]

theorem within_of_error {read : Decoder α} {field : ChunkField} {depth : Nat} {c c' : Cursor}
    {fault : Fault} (h : read c = .error fault c') :
    read.within field depth c = .error ⟨fault, field, depth, c'.offset⟩ c' := by
  simp only [Decoder.within, h]

/-! ## Relations of two readings -/

/-- A relation of two readings that sequencing keeps.  What stands behind them has to be related
only where both have given the same value. -/
structure Parallel (R : ∀ α : Type, Reading ε α → Reading ε α → Prop) : Prop where
  /-- Readings that look at nothing have it. -/
  pure : ∀ {α : Type} (a : α), R α (pure a) (pure a)
  /-- Sequences have it if their parts do. -/
  bind : ∀ {α β : Type} {x y : Reading ε α} {f g : α → Reading ε β},
    R α x y → (∀ a, R β (f a) (g a)) → R β (x >>= f) (y >>= g)

namespace Parallel

variable {R : ∀ α : Type, Reading ε α → Reading ε α → Prop}

theorem map (hR : Parallel R) (g : α → β) {y : Reading ε α} (h : R α x y) :
    R β (g <$> x) (g <$> y) :=
  hR.bind h fun a => hR.pure (g a)

theorem repeatedOnto (hR : Parallel R) {y : Reading ε α} (h : R α x y) :
    ∀ (n : Nat) (done : List α),
      R (List α) (Decoder.repeatedOnto x n done) (Decoder.repeatedOnto y n done)
  | 0, done => hR.pure done.reverse
  | n + 1, done => hR.bind h fun a => repeatedOnto hR h n (a :: done)

theorem repeated (hR : Parallel R) {y : Reading ε α} (h : R α x y) (n : Nat) :
    R (List α) (Decoder.repeated n x) (Decoder.repeated n y) :=
  hR.repeatedOnto h n []

end Parallel

/-! ## Sequential properties -/

/-- A property of readings, whatever they give, that sequencing keeps. -/
structure Sequential (P : ∀ α : Type, Reading ε α → Prop) : Prop where
  /-- A reading that looks at nothing has it. -/
  pure : ∀ {α : Type} (a : α), P α (pure a)
  /-- A sequence has it if its parts do. -/
  bind : ∀ {α β : Type} {x : Reading ε α} {f : α → Reading ε β},
    P α x → (∀ a, P β (f a)) → P β (x >>= f)

namespace Sequential

variable {P : ∀ α : Type, Reading ε α → Prop}

/-- A property of one reading is a relation of two that looks at the first. -/
theorem parallel (hP : Sequential P) : Parallel (fun α x _ => P α x) where
  pure := hP.pure
  bind := hP.bind

theorem map (hP : Sequential P) (g : α → β) (hx : P α x) : P β (g <$> x) :=
  hP.parallel.map g (y := x) hx

theorem repeated (hP : Sequential P) {item : Reading ε α} (hitem : P α item) (n : Nat) :
    P (List α) (Decoder.repeated n item) :=
  hP.parallel.repeated (y := item) hitem n

end Sequential

/-! ## Properties of the decoders -/

/-- A sequential property of the reads that the other decoders are made of. -/
structure Elementary (P : ∀ α : Type, Decoder α → Prop) : Prop extends Sequential P where
  take : ∀ n, P Bytes (Decoder.take n)
  byte : P UInt8 Decoder.byte
  count : P Nat Decoder.count
  line : P UInt32 Decoder.line

/-- An elementary property of numbers of every limit and of the two failures that a decoder finds by
itself, in bytes it has already passed. -/
structure Primitive (P : ∀ α : Type, Decoder α → Prop) : Prop extends Elementary P where
  unsigned : ∀ limit, P UInt64 (Decoder.unsigned limit)
  unknownTag : ∀ b, P Constant (throw (.unknownConstantTag b))
  mismatch : ∀ field, P Unit (throw (.prologueMismatch field))
  count := toSequential.map _ (unsigned _)
  line := toSequential.map _ (unsigned _)

/-- Which decoder reads which field of a function. -/
inductive FieldRead : ∀ {α : Type}, ChunkField → Decoder α → Prop where
  | source : FieldRead .source Decoder.byteString
  | firstLine : FieldRead .firstLine Decoder.line
  | lastLine : FieldRead .lastLine Decoder.line
  | paramCount : FieldRead .paramCount Decoder.byte
  | varargFlag : FieldRead .varargFlag Decoder.flag
  | stackSize : FieldRead .stackSize Decoder.byte
  | code : FieldRead .code (do Decoder.repeated (← Decoder.count) Decoder.uint32)
  | constants : FieldRead .constants (do Decoder.repeated (← Decoder.count) Decoder.constant)
  | upvalues : FieldRead .upvalues (do Decoder.repeated (← Decoder.count) Loader.upvalue)
  | children : FieldRead .children Decoder.count
  | lineDeltas : FieldRead .lineDeltas (do Decoder.repeated (← Decoder.count) Decoder.byte)
  | lineAnchors :
      FieldRead .lineAnchors (do Decoder.repeated (← Decoder.count) Loader.lineAnchor)
  | localVars : FieldRead .localVars (do Decoder.repeated (← Decoder.count) Loader.localVar)
  | upvalueNames :
      FieldRead .upvalueNames (do Decoder.repeated (← Decoder.count) Decoder.byteString)

namespace Elementary

variable {P : ∀ α : Type, Decoder α → Prop}

theorem flag (hP : Elementary P) : P Bool Decoder.flag := hP.map _ hP.byte

theorem uint32 (hP : Elementary P) : P UInt32 Decoder.uint32 := hP.map _ (hP.take 4)

theorem uint64 (hP : Elementary P) : P UInt64 Decoder.uint64 := hP.map _ (hP.take 8)

theorem int64 (hP : Elementary P) : P Int64 Decoder.int64 := hP.map _ hP.uint64

theorem byteString (hP : Elementary P) : P Bytes Decoder.byteString := by
  refine hP.bind hP.count fun size => ?_
  cases size with
  | zero => exact hP.pure []
  | succ size => exact hP.take size

theorem payload (hP : Elementary P) (tag : ConstantTag) : P Constant (Decoder.payload tag) := by
  cases tag with
  | nil => exact hP.pure Constant.nil
  | boolean => exact hP.map _ hP.flag
  | float => exact hP.map _ hP.uint64
  | integer => exact hP.map _ hP.int64
  | shortString => exact hP.map _ hP.byteString
  | longString => exact hP.map _ hP.byteString

theorem upvalue (hP : Elementary P) : P Upvalue Loader.upvalue :=
  hP.bind hP.flag fun _ => hP.bind hP.byte fun _ => hP.bind hP.byte fun _ => hP.pure _

theorem lineAnchor (hP : Elementary P) : P LineAnchor Loader.lineAnchor :=
  hP.bind hP.line fun _ => hP.bind hP.line fun _ => hP.pure _

theorem localVar (hP : Elementary P) : P LocalVar Loader.localVar :=
  hP.bind hP.byteString fun _ => hP.bind hP.line fun _ => hP.bind hP.line fun _ => hP.pure _

/-- A count and as many entries. -/
theorem entries (hP : Elementary P) {entry : Decoder α} (hentry : P α entry) :
    P (List α) (do Decoder.repeated (← Decoder.count) entry) :=
  hP.bind hP.count fun n => hP.repeated hentry n

/-- **An elementary property holds of every field read**, if it holds of constants where there are
any. -/
theorem fieldRead (hP : Elementary P) {field : ChunkField} {read : Decoder α}
    (hconstant : field = .constants → P Constant Decoder.constant) (h : FieldRead field read) :
    P α read := by
  cases h with
  | source => exact hP.byteString
  | firstLine => exact hP.line
  | lastLine => exact hP.line
  | paramCount => exact hP.byte
  | varargFlag => exact hP.flag
  | stackSize => exact hP.byte
  | code => exact hP.entries hP.uint32
  | constants => exact hP.entries (hconstant rfl)
  | upvalues => exact hP.entries hP.upvalue
  | children => exact hP.count
  | lineDeltas => exact hP.entries hP.byte
  | lineAnchors => exact hP.entries hP.lineAnchor
  | localVars => exact hP.entries hP.localVar
  | upvalueNames => exact hP.entries hP.byteString

end Elementary

/-- A sequential property of the checks of some fields is one of checking them all. -/
theorem Sequential.checkFields {P : ∀ α : Type, Decoder α → Prop} (hP : Sequential P) :
    ∀ {fields : List (PrologueField × Bytes)},
      (∀ field expected, (field, expected) ∈ fields →
        P Unit (Prologue.checkField field expected)) → P Unit (Prologue.checkFields fields)
  | [], _ => hP.pure ()
  | (field, expected) :: _, hfields =>
      hP.bind (hfields field expected List.mem_cons_self) fun _ =>
        hP.checkFields fun field expected hmem =>
          hfields field expected (List.mem_cons_of_mem _ hmem)

namespace Primitive

variable {P : ∀ α : Type, Decoder α → Prop}

theorem constant (hP : Primitive P) : P Constant Decoder.constant := by
  refine hP.bind hP.byte fun b => ?_
  cases ConstantTag.ofByte? b with
  | some tag => exact hP.payload tag
  | none => exact hP.unknownTag b

/-- **A primitive property holds of every field read.** -/
theorem fieldRead (hP : Primitive P) {field : ChunkField} {read : Decoder α}
    (h : FieldRead field read) : P α read :=
  hP.toElementary.fieldRead (fun _ => hP.constant) h

theorem checkFields (hP : Primitive P) (fields : List (PrologueField × Bytes)) :
    P Unit (Prologue.checkFields fields) := by
  refine hP.toSequential.checkFields fun field expected _ => ?_
  refine hP.bind (hP.take expected.length) fun found => ?_
  split_ifs
  · exact hP.pure ()
  · exact hP.mismatch field

theorem prologue (hP : Primitive P) (withSizes : Bool) : P Unit (Prologue.check withSizes) :=
  hP.checkFields _

end Primitive

/-! ## Properties of the loaders -/

/-- **The fields of one function**: the children may be read in any two ways that are related. -/
theorem Parallel.function {R : ∀ α : Type, Loader α → Loader α → Prop} (hR : Parallel R)
    {depth : Nat}
    (hfield : ∀ {α : Type} {field : ChunkField} {read : Decoder α},
      FieldRead field read → R α (read.within field depth) (read.within field depth))
    {f g : Bytes → Loader (List Prototype)} (hchildren : ∀ s, R _ (f s) (g s))
    (enclosing : Bytes) :
    R Prototype (Loader.function depth f enclosing) (Loader.function depth g enclosing) :=
  hR.bind (hfield .source) fun _ => hR.bind (hfield .firstLine) fun _ =>
  hR.bind (hfield .lastLine) fun _ => hR.bind (hfield .paramCount) fun _ =>
  hR.bind (hfield .varargFlag) fun _ => hR.bind (hfield .stackSize) fun _ =>
  hR.bind (hfield .code) fun _ => hR.bind (hfield .constants) fun _ =>
  hR.bind (hfield .upvalues) fun _ => hR.bind (hchildren _) fun _ =>
  hR.bind (hfield .lineDeltas) fun _ => hR.bind (hfield .lineAnchors) fun _ =>
  hR.bind (hfield .localVars) fun _ => hR.bind (hfield .upvalueNames) fun _ => hR.pure _

/-- What stands for the children of a function at the deepest level: their number, which may only be
zero. -/
def noChildren (depth : Nat) : Loader (List Prototype) := do
  let n ← Decoder.count.within .children depth
  if n = 0 then
    pure []
  else
    Loader.fail (.nestingTooDeep depth) .children depth

/-- What stands behind the prologue: the number of upvalues and the main function. -/
def behindPrologue (maxDepth : Nat) : Loader Prototype := do
  let declared ← Decoder.byte.within .upvalueCount 0
  let main ← Loader.tree maxDepth 0 []
  if declared.toNat = main.upvalues.length then
    pure main
  else
    Loader.fail (.upvalueCountMismatch declared.toNat main.upvalues.length) .upvalueCount 0

theorem chunk_eq (settings : LoaderSettings) :
    Loader.chunk settings = (do
      (Prologue.check settings.checkTypeSizes).within .prologue 0
      behindPrologue settings.maxDepth) := rfl

/-- What stands behind the prologue, with two ways to read the tree that are related. -/
theorem Parallel.behindPrologue {R : ∀ α : Type, Loader α → Loader α → Prop} (hR : Parallel R)
    {m n : Nat}
    (hdeclared : R UInt8 (Decoder.byte.within .upvalueCount 0) (Decoder.byte.within .upvalueCount 0))
    (hmain : R Prototype (Loader.tree m 0 []) (Loader.tree n 0 []))
    (hmismatch : ∀ declared actual, R Prototype
      (Loader.fail (.upvalueCountMismatch declared actual) .upvalueCount 0)
      (Loader.fail (.upvalueCountMismatch declared actual) .upvalueCount 0)) :
    R Prototype (Reading.behindPrologue m) (Reading.behindPrologue n) := by
  refine hR.bind hdeclared fun declared => hR.bind hmain fun main => ?_
  split_ifs
  · exact hR.pure main
  · exact hmismatch _ _

namespace Sequential

variable {Q : ∀ α : Type, Loader α → Prop}

/-- The fields of one function: the children may be read in any way that has the property. -/
theorem function (hQ : Sequential Q) {depth : Nat}
    (hfield : ∀ {α : Type} {field : ChunkField} {read : Decoder α},
      FieldRead field read → Q α (read.within field depth))
    {children : Bytes → Loader (List Prototype)} (hchildren : ∀ s, Q _ (children s))
    (enclosing : Bytes) : Q Prototype (Loader.function depth children enclosing) :=
  hQ.parallel.function (g := children) hfield hchildren enclosing

/-- **A sequential property of the field reads up to a depth is one of whole trees up to it.**  The
induction is on the levels that may still be entered: the depth grows towards the limit, and a
function at the limit can only refuse its children. -/
theorem treeUpTo (hQ : Sequential Q) {limit : Nat}
    (hfield : ∀ {α : Type} {field : ChunkField} {read : Decoder α} {depth : Nat}, depth ≤ limit →
      FieldRead field read → Q α (read.within field depth))
    (hdeepest : Q (List Prototype) (noChildren limit)) :
    ∀ (room depth : Nat) (enclosing : Bytes), depth + room = limit →
      Q Prototype (Loader.tree room depth enclosing)
  | 0, depth, enclosing, hroom => by
      obtain rfl : depth = limit := hroom
      exact hQ.function (hfield (Nat.le_refl depth)) (fun _ => hdeepest) enclosing
  | room + 1, depth, enclosing, hroom => by
      have hdepth : depth ≤ limit := by omega
      refine hQ.function (hfield hdepth) (fun source => ?_) enclosing
      exact hQ.bind (hfield hdepth .children) fun n =>
        hQ.repeated (treeUpTo hQ hfield hdeepest room (depth + 1) source (by omega)) n

/-- A sequential property of the field reads, whatever the depth, is one of whole trees. -/
theorem tree (hQ : Sequential Q)
    (hfield : ∀ {α : Type} {field : ChunkField} {read : Decoder α} (depth : Nat),
      FieldRead field read → Q α (read.within field depth))
    (hdeep : ∀ depth, Q (List Prototype) (Loader.fail (.nestingTooDeep depth) .children depth))
    (room depth : Nat) (enclosing : Bytes) : Q Prototype (Loader.tree room depth enclosing) := by
  refine hQ.treeUpTo (fun _ => hfield _) ?_ room depth enclosing rfl
  refine hQ.bind (hfield _ .children) fun n => ?_
  split_ifs
  · exact hQ.pure []
  · exact hdeep _

/-- A sequential property of everything the loader can read or refuse behind the prologue is one of
all that stands there. -/
theorem behindPrologue (hQ : Sequential Q)
    (hfield : ∀ {α : Type} {field : ChunkField} {read : Decoder α} (depth : Nat),
      FieldRead field read → Q α (read.within field depth))
    (hdeep : ∀ depth, Q (List Prototype) (Loader.fail (.nestingTooDeep depth) .children depth))
    (hdeclared : Q UInt8 (Decoder.byte.within .upvalueCount 0))
    (hmismatch : ∀ declared actual,
      Q Prototype (Loader.fail (.upvalueCountMismatch declared actual) .upvalueCount 0))
    (maxDepth : Nat) : Q Prototype (Reading.behindPrologue maxDepth) :=
  hQ.parallel.behindPrologue (n := maxDepth) hdeclared
    (hQ.tree hfield hdeep maxDepth 0 []) hmismatch

/-- A sequential property of everything the loader can read or refuse is one of the loader. -/
theorem chunk (hQ : Sequential Q)
    (hfield : ∀ {α : Type} {field : ChunkField} {read : Decoder α} (depth : Nat),
      FieldRead field read → Q α (read.within field depth))
    (hdeep : ∀ depth, Q (List Prototype) (Loader.fail (.nestingTooDeep depth) .children depth))
    {settings : LoaderSettings}
    (hprologue : Q Unit ((Prologue.check settings.checkTypeSizes).within .prologue 0))
    (hdeclared : Q UInt8 (Decoder.byte.within .upvalueCount 0))
    (hmismatch : ∀ declared actual,
      Q Prototype (Loader.fail (.upvalueCountMismatch declared actual) .upvalueCount 0)) :
    Q Prototype (Loader.chunk settings) :=
  hQ.bind hprologue fun _ => hQ.behindPrologue hfield hdeep hdeclared hmismatch settings.maxDepth

end Sequential

end Reading

end LuaBytecode
