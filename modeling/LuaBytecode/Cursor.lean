import LuaBytecode.Bytes
import LuaBytecode.Fault

/-!
# Reading from the front of the input

A `Cursor` is a place in the input: how many bytes are behind it, and the bytes ahead.  A
`Decoder` reads from a cursor and says, whether it succeeds or fails, where the cursor is
afterwards: a failed read of several parts has already passed the parts that were there, and a
caller may go on from that place.

A read of known length is all or nothing.  `take` is the one such read; the fixed-width numbers
are `take` of their width.  `repeated` runs a decoder a given number of times and stops at the
first failure, so that a huge count costs no more than the input holds.
-/

namespace LuaBytecode

/-- A place in the input. -/
structure Cursor where
  /-- How many bytes lie before this place. -/
  offset : Nat
  /-- The bytes from this place on. -/
  rest : Bytes
  deriving DecidableEq, Repr, Inhabited

/-- The front of an input. -/
def Cursor.start (input : Bytes) : Cursor := ⟨0, input⟩

/-- How many bytes are left. -/
def Cursor.remaining (c : Cursor) : Nat := c.rest.length

/-- No byte is left. -/
def Cursor.atEnd (c : Cursor) : Bool := c.rest.isEmpty

/-- A read that can fail for a `Fault`; the cursor survives the failure. -/
abbrev Decoder (α : Type) := EStateM Fault Cursor α

namespace Decoder

/-- The next `n` bytes; if there are fewer, nothing is passed. -/
def take (n : Nat) : Decoder Bytes := fun c =>
  let taken := c.rest.take n
  if taken.length = n then
    .ok taken ⟨c.offset + n, c.rest.drop n⟩
  else
    .error (.unexpectedEnd c.offset n c.remaining) c

/-- The next byte. -/
def byte : Decoder UInt8 := fun c =>
  match c.rest with
  | b :: rest => .ok b ⟨c.offset + 1, rest⟩
  | [] => .error (.unexpectedEnd c.offset 1 0) c

/-- A byte read as a flag: any byte but zero is true. -/
def flag : Decoder Bool := (· != 0) <$> byte

/-- A 32-bit word. -/
def uint32 : Decoder UInt32 := (UInt32.ofNat ∘ ofLittleEndian) <$> take 4

/-- A 64-bit word. -/
def uint64 : Decoder UInt64 := (UInt64.ofNat ∘ ofLittleEndian) <$> take 8

/-- A 64-bit integer in two's complement. -/
def int64 : Decoder Int64 := UInt64.toInt64 <$> uint64

/-- The worker of `repeated`; `done` holds the items read so far, last first. -/
def repeatedOnto {ε σ α : Type} (item : EStateM ε σ α) :
    Nat → List α → EStateM ε σ (List α)
  | 0, done => fun s => .ok done.reverse s
  | n + 1, done => fun s =>
      match item s with
      | .ok a s => repeatedOnto item n (a :: done) s
      | .error e s => .error e s

/-- Runs `item` exactly `n` times, or up to its first failure. -/
def repeated {ε σ α : Type} (n : Nat) (item : EStateM ε σ α) : EStateM ε σ (List α) :=
  repeatedOnto item n []

/-! ## What the reads do -/

theorem take_of_le {n : Nat} {c : Cursor} (h : n ≤ c.remaining) :
    take n c = .ok (c.rest.take n) ⟨c.offset + n, c.rest.drop n⟩ :=
  if_pos (by rw [List.length_take]; exact Nat.min_eq_left h)

theorem take_of_lt {n : Nat} {c : Cursor} (h : c.remaining < n) :
    take n c = .error (.unexpectedEnd c.offset n c.remaining) c :=
  if_neg (by rw [List.length_take]; unfold Cursor.remaining at h; omega)

end Decoder

end LuaBytecode
