import LuaBytecode.Chunk.Load

/-!
# The format as a grammar

Which bytes stand for which value, said without a reader: `Grammar.Chunk settings bytes main` holds
if `bytes`, from the first to the last, are a form of a chunk with `main` as its main function.  A
value has many forms: numbers may start with groups of zeros, any byte but zero is a true flag, the
empty string has two sizes, and a string constant two tags.

Each relation takes the bytes first and the value last, so a relation for the entries of a table is
what makes a relation for the table.
-/

namespace LuaBytecode

namespace Grammar

/-- A number of variable length up to a limit: groups without the top bit, then one with it. -/
def Number (limit : Nat) (bytes : Bytes) (n : Nat) : Prop :=
  ∃ groups last, bytes = groups ++ [last] ∧ (∀ b ∈ groups, Varint.isLast b = false) ∧
    Varint.isLast last = true ∧ Varint.value bytes = n ∧ n ≤ limit

/-- A count. -/
def Count (bytes : Bytes) (n : Nat) : Prop := Number (UInt64.size - 1) bytes n

/-- A line or a program counter. -/
def Line (bytes : Bytes) (n : UInt32) : Prop := Number (UInt32.size - 1) bytes n.toNat

/-- A single byte. -/
def Byte (bytes : Bytes) (b : UInt8) : Prop := bytes = [b]

/-- A flag. -/
def Flag (bytes : Bytes) (value : Bool) : Prop := ∃ b, bytes = [b] ∧ value = (b != 0)

/-- A word of a given width. -/
def Word (width : Nat) (bytes : Bytes) (n : Nat) : Prop :=
  bytes.length = width ∧ ofLittleEndian bytes = n

/-- A string. -/
inductive Text : Bytes → Bytes → Prop where
  /-- The size zero, for the empty string. -/
  | absent {size : Bytes} (hsize : Count size 0) : Text size []
  /-- The length and one as the size, then the bytes. -/
  | present {size s : Bytes} (hsize : Count size (s.length + 1)) : Text (size ++ s) s

/-- A constant: a tag and the payload of its kind. -/
inductive Constant : Bytes → LuaBytecode.Constant → Prop where
  | nil : Constant [0x00] .nil
  | boolean {bytes : Bytes} {value : Bool} (h : Flag bytes value) :
      Constant (0x01 :: bytes) (.boolean value)
  | float {bytes : Bytes} {x : Binary64} (h : Word 8 bytes x.bits.toNat) :
      Constant (0x03 :: bytes) (.float x)
  | integer {bytes : Bytes} {n : Int64} (h : Word 8 bytes n.toUInt64.toNat) :
      Constant (0x13 :: bytes) (.integer n)
  | shortString {bytes s : Bytes} (h : Text bytes s) : Constant (0x04 :: bytes) (.string s)
  | longString {bytes s : Bytes} (h : Text bytes s) : Constant (0x14 :: bytes) (.string s)

/-- Entries one behind the other. -/
inductive Entries {α : Type} (entry : Bytes → α → Prop) : Bytes → List α → Prop where
  | nil : Entries entry [] []
  | cons {front rest : Bytes} {a : α} {as : List α} (ha : entry front a)
      (has : Entries entry rest as) : Entries entry (front ++ rest) (a :: as)

/-- A table: its length, then its entries. -/
inductive Table {α : Type} (entry : Bytes → α → Prop) : Bytes → List α → Prop where
  | mk {size bytes : Bytes} {as : List α} (hsize : Count size as.length)
      (has : Entries entry bytes as) : Table entry (size ++ bytes) as

/-- An entry of the upvalue table. -/
inductive Upvalue : Bytes → LuaBytecode.Upvalue → Prop where
  | mk {front : Bytes} {inStack : Bool} {index kind : UInt8} (h : Flag front inStack) :
      Upvalue (front ++ [index, kind]) ⟨inStack, index, kind⟩

/-- An entry of the table of anchors. -/
inductive LineAnchor : Bytes → LuaBytecode.LineAnchor → Prop where
  | mk {front rest : Bytes} {pc line : UInt32} (hpc : Line front pc) (hline : Line rest line) :
      LineAnchor (front ++ rest) ⟨pc, line⟩

/-- An entry of the table of local variables. -/
inductive LocalVar : Bytes → LuaBytecode.LocalVar → Prop where
  | mk {name start stop s : Bytes} {startPc endPc : UInt32} (hname : Text name s)
      (hstart : Line start startPc) (hstop : Line stop endPc) :
      LocalVar (name ++ start ++ stop) ⟨s, startPc, endPc⟩

/-- The fields of a function in front of those nested in it, for a function from `stored`. -/
inductive Head (stored : Bytes) : Bytes → Prototype → Prop where
  | mk {source firstLine lastLine params vararg stack code constants upvalues : Bytes}
      {p : Prototype}
      (hsource : Text source stored)
      (hfirstLine : Line firstLine p.firstLine)
      (hlastLine : Line lastLine p.lastLine)
      (hparams : Byte params p.paramCount)
      (hvararg : Flag vararg p.isVararg)
      (hstack : Byte stack p.stackSize)
      (hcode : Table (fun bytes word => Word 4 bytes word.toNat) code p.code)
      (hconstants : Table Constant constants p.constants)
      (hupvalues : Table Upvalue upvalues p.upvalues) :
      Head stored
        (source ++ firstLine ++ lastLine ++ params ++ vararg ++ stack ++ code ++ constants ++
          upvalues) p

/-- The fields of a function behind those nested in it. -/
inductive Tail : Bytes → Prototype → Prop where
  | mk {deltas anchors locals names : Bytes} {p : Prototype}
      (hdeltas : Table Byte deltas p.lineDeltas)
      (hanchors : Table LineAnchor anchors p.lineAnchors)
      (hlocals : Table LocalVar locals p.localVars)
      (hnames : Table Text names p.upvalueNames) :
      Tail (deltas ++ anchors ++ locals ++ names) p

mutual

/-- A function at a depth inside one from `enclosing`: its fields, and in the middle its children.
It has children only above the greatest depth, and an empty stored source stands for the enclosing
one. -/
inductive Function (maxDepth : Nat) : (depth : Nat) → (enclosing : Bytes) → Bytes → Prototype →
    Prop where
  | mk {depth : Nat} {enclosing stored head size children tail : Bytes} {p : Prototype}
      (hhead : Head stored head p)
      (hsource : p.source = ownSource enclosing stored)
      (hsize : Count size p.children.length)
      (hdepth : p.children ≠ [] → depth < maxDepth)
      (hchildren : Functions maxDepth (depth + 1) p.source children p.children)
      (htail : Tail tail p) :
      Function maxDepth depth enclosing (head ++ size ++ children ++ tail) p

/-- Functions one behind the other. -/
inductive Functions (maxDepth : Nat) : (depth : Nat) → (enclosing : Bytes) → Bytes →
    List Prototype → Prop where
  | nil {depth : Nat} {enclosing : Bytes} : Functions maxDepth depth enclosing [] []
  | cons {depth : Nat} {enclosing front rest : Bytes} {p : Prototype} {ps : List Prototype}
      (hp : Function maxDepth depth enclosing front p)
      (hps : Functions maxDepth depth enclosing rest ps) :
      Functions maxDepth depth enclosing (front ++ rest) (p :: ps)

end

/-- A chunk: the prologue, the number of upvalues of the main function, and the main function. -/
inductive Chunk (settings : LoaderSettings) : Bytes → Prototype → Prop where
  | mk {declared : UInt8} {bytes : Bytes} {main : Prototype}
      (hdeclared : declared.toNat = main.upvalues.length)
      (hmain : Function settings.maxDepth 0 [] bytes main) :
      Chunk settings (Prologue.encode settings.checkTypeSizes ++ declared :: bytes) main

end Grammar

end LuaBytecode
