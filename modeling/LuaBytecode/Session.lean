import LuaBytecode.Constant.Format
import LuaBytecode.Prologue

/-!
# Sessions with a reader

A chunk is read by asking for one thing after another.  `FixedRead` lists what has a length of its
own, `Read` adds what says itself how long it is, and `ReaderRequest` the check of a prologue.
Whether a request is met or not, it leaves the cursor somewhere, and a session goes on from there:
`afterAll` is where a run of requests ends.
-/

namespace LuaBytecode

/-- The reads of a known length. -/
inductive FixedRead where
  | byte
  /-- That many bytes as they are, in a run or an array. -/
  | bytes (n : Nat)
  | uint32
  | uint64
  | int64
  | float64
  deriving DecidableEq, Repr

namespace FixedRead

/-- How many bytes a read takes. -/
def width : FixedRead → Nat
  | .byte => 1
  | .bytes n => n
  | .uint32 => 4
  | .uint64 => 8
  | .int64 => 8
  | .float64 => 8

/-- What a read gives. -/
abbrev Value : FixedRead → Type
  | .byte => UInt8
  | .bytes _ => Bytes
  | .uint32 => UInt32
  | .uint64 => UInt64
  | .int64 => Int64
  | .float64 => Binary64

def decoder : (r : FixedRead) → Decoder r.Value
  | .byte => Decoder.byte
  | .bytes n => Decoder.take n
  | .uint32 => Decoder.uint32
  | .uint64 => Decoder.uint64
  | .int64 => Decoder.int64
  | .float64 => Binary64.mk <$> Decoder.uint64

/-- How a value is stored. -/
def encode : (r : FixedRead) → r.Value → Bytes
  | .byte, b => [b]
  | .bytes _, taken => taken
  | .uint32, n => littleEndian 4 n.toNat
  | .uint64, n => littleEndian 8 n.toNat
  | .int64, n => littleEndian 8 n.toUInt64.toNat
  | .float64, x => littleEndian 8 x.bits.toNat

end FixedRead

/-- All reads. -/
inductive Read where
  | fixed (r : FixedRead)
  /-- A number of variable length up to a limit. -/
  | unsigned (limit : UInt64)
  | count
  | line
  | string
  | constant
  deriving DecidableEq, Repr

namespace Read

abbrev Value : Read → Type
  | .fixed r => r.Value
  | .unsigned _ => UInt64
  | .count => Nat
  | .line => UInt32
  | .string => Bytes
  | .constant => Constant

def decoder : (r : Read) → Decoder r.Value
  | .fixed r => r.decoder
  | .unsigned limit => Decoder.unsigned limit
  | .count => Decoder.count
  | .line => Decoder.line
  | .string => Decoder.byteString
  | .constant => Decoder.constant

end Read

/-- What a reader can be asked for. -/
inductive ReaderRequest where
  | read (r : Read)
  /-- That a prologue of one of the two layouts stands here. -/
  | prologue (withSizes : Bool)
  deriving DecidableEq, Repr

namespace ReaderRequest

abbrev Value : ReaderRequest → Type
  | .read r => r.Value
  | .prologue _ => Unit

def decoder : (q : ReaderRequest) → Decoder q.Value
  | .read r => r.decoder
  | .prologue withSizes => Prologue.check withSizes

/-- Where a request leaves the cursor, met or not. -/
def after (q : ReaderRequest) (c : Cursor) : Cursor :=
  match q.decoder c with
  | .ok _ c => c
  | .error _ c => c

end ReaderRequest

/-- Where a run of requests leaves the cursor; each goes on from where the one before it ended. -/
def Cursor.afterAll (c : Cursor) (requests : List ReaderRequest) : Cursor :=
  requests.foldl (fun c q => q.after c) c

end LuaBytecode
