/-!
# Bytes and fixed-width numbers

A chunk is a sequence of bytes, and every byte string inside it is a piece of that sequence, so
both are plain lists here: taking a piece off the front is what every reader does, and lists make
that the easy case.

The fixed-width numbers of a chunk are little-endian.  `ofLittleEndian` reads a run of any width
and `littleEndian` writes one; `ofLittleEndian_littleEndian` says that writing loses nothing but
the bits above the width, and `littleEndian_ofLittleEndian` that reading loses nothing.
-/

namespace LuaBytecode

/-- A sequence of bytes. -/
abbrev Bytes := List UInt8

/-- The number a run of bytes stands for, least significant byte first. -/
def ofLittleEndian : Bytes → Nat
  | [] => 0
  | b :: rest => b.toNat + 256 * ofLittleEndian rest

/-- The low `width` bytes of a number, least significant byte first. -/
def littleEndian : (width : Nat) → Nat → Bytes
  | 0, _ => []
  | width + 1, n => UInt8.ofNat (n % 256) :: littleEndian width (n / 256)

@[simp] theorem length_littleEndian (width n : Nat) : (littleEndian width n).length = width := by
  induction width generalizing n with
  | zero => rfl
  | succ width ih => simp [littleEndian, ih]

/-- Writing a number in `width` bytes keeps it modulo `256 ^ width`. -/
theorem ofLittleEndian_littleEndian (width n : Nat) :
    ofLittleEndian (littleEndian width n) = n % Nat.pow 256 width := by
  induction width generalizing n with
  | zero => simp [littleEndian, ofLittleEndian, Nat.mod_one]
  | succ width ih =>
      have low : (UInt8.ofNat (n % 256)).toNat = n % 256 := by simp
      rw [littleEndian, ofLittleEndian, ih, low, Nat.pow_eq, Nat.pow_eq, Nat.pow_succ', Nat.mod_mul]

/-- Reading a run of bytes as a number keeps all of them. -/
theorem littleEndian_ofLittleEndian (bytes : Bytes) :
    littleEndian bytes.length (ofLittleEndian bytes) = bytes := by
  induction bytes with
  | nil => rfl
  | cons b bytes ih =>
      have hb : b.toNat < 256 := b.toNat_lt
      have hlow : (b.toNat + 256 * ofLittleEndian bytes) % 256 = b.toNat := by omega
      have hhigh : (b.toNat + 256 * ofLittleEndian bytes) / 256 = ofLittleEndian bytes := by omega
      rw [List.length_cons, ofLittleEndian, littleEndian, hlow, hhigh, ih, UInt8.ofNat_toNat]

/-- A run of `width` bytes stands for a number below `256 ^ width`. -/
theorem ofLittleEndian_lt (bytes : Bytes) : ofLittleEndian bytes < Nat.pow 256 bytes.length := by
  induction bytes with
  | nil => simp [ofLittleEndian]
  | cons b rest ih =>
      have hb : b.toNat < 256 := b.toNat_lt
      simp only [ofLittleEndian, List.length_cons, Nat.pow_eq, Nat.pow_succ] at ih ⊢
      omega

end LuaBytecode
