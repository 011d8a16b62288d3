import LuaBytecode.Chunk.Load

/-!
# Chunks from a stream

A stream hands out its bytes in pieces and ends with an empty piece, or it breaks.  A chunk is
loaded from a stream by first taking all of it: what is loaded depends on the bytes and not on how
they were cut, and of a stream that breaks nothing is loaded, however much of it had arrived.
-/

namespace LuaBytecode

/-- What one request to a stream gives. -/
inductive Delivery where
  | piece (bytes : Bytes)
  | broken (reason : String)
  deriving DecidableEq, Repr

/-- The deliveries of a stream in order; behind the last there are only empty pieces. -/
abbrev ByteStream := List Delivery

namespace ByteStream

/-- The worker of `collect`; `done` holds the bytes that have arrived, last first. -/
def collectOnto (done : Bytes) : ByteStream → Except String Bytes
  | [] => .ok done.reverse
  | .piece [] :: _ => .ok done.reverse
  | .piece (b :: bytes) :: rest => collectOnto ((b :: bytes).reverseAux done) rest
  | .broken reason :: _ => .error reason

/-- All bytes up to the end of a stream. -/
def collect (stream : ByteStream) : Except String Bytes := collectOnto [] stream

/-- What is left of a stream when all of it has been taken: one that has ended stays at its end, and
one that has broken stays broken. -/
def spent (stream : ByteStream) : ByteStream :=
  match stream.collect with
  | .ok _ => []
  | .error reason => [.broken reason]

/-- The worker of `ofBytes`. -/
def ofBytesOnto (size : Nat) (done : List Delivery) : (fuel : Nat) → Bytes → List Delivery
  | 0, _ => done.reverse
  | fuel + 1, bytes =>
      if bytes.isEmpty then done.reverse
      else ofBytesOnto size (.piece (bytes.take size) :: done) fuel (bytes.drop size)

/-- A stream that hands out bytes at most `size` at a time. -/
def ofBytes (size : Nat) (bytes : Bytes) : ByteStream := ofBytesOnto size [] bytes.length bytes

/-- A stream that hands out the first `count` bytes at most `size` at a time and then breaks; it
never comes to that if it ends earlier. -/
def breakingAfter (count : Nat) (reason : String) (size : Nat) (bytes : Bytes) : ByteStream :=
  let delivered := bytes.take count
  ofBytes size delivered ++ if delivered.length = count then [.broken reason] else []

end ByteStream

/-- The main function of a chunk that comes from a stream. -/
def loadStream (settings : LoaderSettings) (stream : ByteStream) : Except LoadError Prototype :=
  match stream.collect with
  | .ok input => load settings input
  | .error reason => .error ⟨.brokenStream reason, .input, 0, 0⟩

end LuaBytecode
