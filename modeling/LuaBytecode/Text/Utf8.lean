import LuaBytecode.Bytes

/-!
# Byte strings as text

A byte string of a chunk need not be text.  `pieces` splits one into the characters it encodes and
the runs of bytes between them that encode none; such a run is as long as it can be while it
could still have become a character, so a bad byte never hides the character that follows it.
`lossy` shows each such run as one replacement character, `strict?` refuses them.

A character of several bytes is announced by its first byte, which fixes how many bytes follow and
narrows what the first of them may be: that rules out overlong forms, surrogates and numbers above
the last character.
-/

namespace LuaBytecode

namespace Utf8

/-- A part of a byte string: a character, or bytes that encode none. -/
inductive Piece where
  | char (c : Char)
  | invalid (bytes : Bytes)
  deriving DecidableEq, Repr

/-- What a first byte announces: how many bytes follow, the range of the first of them, and the
bits it contributes. -/
structure Lead where
  following : Nat
  low : UInt8
  high : UInt8
  bits : Nat

/-- What a first byte of a character announces, if it can be one. -/
def lead? (b : UInt8) : Option Lead :=
  if b < 0x80 then some ⟨0, 0x80, 0xBF, b.toNat⟩
  else if b < 0xC2 then none
  else if b < 0xE0 then some ⟨1, 0x80, 0xBF, b.toNat - 0xC0⟩
  else if b < 0xF0 then
    some ⟨2, if b = 0xE0 then 0xA0 else 0x80, if b = 0xED then 0x9F else 0xBF, b.toNat - 0xE0⟩
  else if b < 0xF5 then
    some ⟨3, if b = 0xF0 then 0x90 else 0x80, if b = 0xF4 then 0x8F else 0xBF, b.toNat - 0xF0⟩
  else none

/-- Goes on with a character of which `passed` has been read and `following` bytes are owed, the
next of them between `low` and `high`. -/
def follow : (following : Nat) → (low high : UInt8) → (bits : Nat) → (passed : Bytes) → Bytes →
    Piece × Bytes
  | 0, _, _, bits, _, rest => (.char (Char.ofNat bits), rest)
  | _ + 1, _, _, _, passed, [] => (.invalid passed, [])
  | following + 1, low, high, bits, passed, b :: rest =>
      if low ≤ b ∧ b ≤ high then
        follow following 0x80 0xBF (bits * 64 + b.toNat % 64) (passed ++ [b]) rest
      else
        (.invalid passed, b :: rest)

/-- The first part of a byte string that starts with `b`, and the bytes behind it. -/
def front (b : UInt8) (rest : Bytes) : Piece × Bytes :=
  match lead? b with
  | some lead => follow lead.following lead.low lead.high lead.bits [b] rest
  | none => (.invalid [b], rest)

theorem length_follow_le (following : Nat) (low high : UInt8) (bits : Nat) (passed rest : Bytes) :
    (follow following low high bits passed rest).2.length ≤ rest.length := by
  induction following generalizing low high bits passed rest with
  | zero => simp [follow]
  | succ n ih =>
      cases rest with
      | nil => simp [follow]
      | cons b rest =>
          rw [follow]
          split
          · exact Nat.le_trans (ih ..) (by simp)
          · exact Nat.le_refl _

/-- The first part takes the first byte at least. -/
theorem length_front_le (b : UInt8) (rest : Bytes) : (front b rest).2.length ≤ rest.length := by
  unfold front
  split
  · exact length_follow_le ..
  · exact Nat.le_refl _

/-- The worker of `pieces`; `done` holds the parts found so far, last first. -/
def piecesOnto (done : List Piece) : Bytes → List Piece
  | [] => done.reverse
  | b :: rest => piecesOnto ((front b rest).1 :: done) (front b rest).2
termination_by bytes => bytes.length
decreasing_by exact Nat.lt_succ_of_le (length_front_le b rest)

/-- The parts of a byte string, in order. -/
def pieces (bytes : Bytes) : List Piece := piecesOnto [] bytes

/-- A character as it is, and the replacement character for bytes that encode none. -/
def Piece.shown : Piece → Char
  | .char c => c
  | .invalid _ => '\uFFFD'

/-- The text of a byte string, with a replacement character for each run of bytes that encodes
none. -/
def lossy (bytes : Bytes) : String := String.ofList ((pieces bytes).map Piece.shown)

/-- The text of a byte string, if all of it encodes characters. -/
def strict? (bytes : Bytes) : Option String :=
  let isChar : Piece → Bool
    | .char _ => true
    | .invalid _ => false
  if (pieces bytes).all isChar then some (lossy bytes) else none

/-- The bytes that encode a text. -/
def encode (text : String) : Bytes := text.toList.flatMap String.utf8EncodeChar

end Utf8

end LuaBytecode
