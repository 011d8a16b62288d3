import LuaBytecode.Cursor

/-!
# Numbers of variable length

A count, a line or a program counter is stored in groups of seven bits, most significant group
first.  The top bit is set on the last group only, so the number says itself where it ends.
Groups of zeros in front change nothing, and the reader takes them: a number has one canonical
form, `encode`, and infinitely many accepted ones.

Reading accumulates in a 64-bit word.  `value` is what the same groups stand for without a bound
on the word; the check in front of each shift is what keeps the two equal, so that a number above
the limit is refused and never wrapped.
-/

namespace LuaBytecode

namespace Varint

/-- The number that groups of seven bits stand for, most significant group first, whatever the
top bits are. -/
def value (bytes : Bytes) : Nat := bytes.foldl (fun acc b => acc * 128 + b.toNat % 128) 0

/-- The groups of a number without the top bit; none at all for zero. -/
def leadingGroups (n : Nat) : Bytes :=
  if n = 0 then [] else leadingGroups (n / 128) ++ [UInt8.ofNat (n % 128)]
termination_by n
decreasing_by omega

/-- The shortest form of a number: no group of zeros in front, the top bit on the last. -/
def encode (n : Nat) : Bytes := leadingGroups (n / 128) ++ [UInt8.ofNat (n % 128 + 128)]

/-- The top bit marks the last group. -/
def isLast (b : UInt8) : Bool := 0x80 ≤ b

/-- Appends the seven bits of a group to an accumulated word. -/
def push (acc : UInt64) (b : UInt8) : UInt64 := acc <<< 7 ||| (b &&& 0x7F).toUInt64

/-- The worker of `unsigned`: `acc` holds the groups passed so far. -/
def scan (limit : UInt64) (start : Nat) :
    (acc : UInt64) → (offset : Nat) → Bytes → EStateM.Result Fault Cursor UInt64
  | _, offset, [] => .error (.malformedVarint start) ⟨offset, []⟩
  | acc, offset, b :: rest =>
      if limit >>> 7 < acc then
        .error (.integerOverflow start limit.toNat) ⟨offset + 1, rest⟩
      else if limit < push acc b then
        .error (.integerOverflow start limit.toNat) ⟨offset + 1, rest⟩
      else if isLast b then
        .ok (push acc b) ⟨offset + 1, rest⟩
      else
        scan limit start (push acc b) (offset + 1) rest

end Varint

namespace Decoder

/-- A number of variable length, at most `limit`. -/
def unsigned (limit : UInt64) : Decoder UInt64 := fun c =>
  Varint.scan limit c.offset 0 c.offset c.rest

/-- The length of a table, or the size of a string: any 64-bit number. -/
def count : Decoder Nat := UInt64.toNat <$> unsigned 0xFFFFFFFFFFFFFFFF

/-- A line or a program counter: any 32-bit number. -/
def line : Decoder UInt32 := UInt64.toUInt32 <$> unsigned 0xFFFFFFFF

end Decoder

end LuaBytecode
