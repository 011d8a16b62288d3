import LuaBytecode.Proofs.Text.Utf8
import Mathlib.Data.List.Basic

/-!
# A byte string is its pieces

The pieces of a byte string are in the string one behind the other, each with its own bytes: those
that encode a character are the ones its encoding has, since the first byte allows no form but the
shortest, no surrogate and no number that is not a character's.

* `utf8EncodeChar_two` and its kin — the encoding of what bytes in their ranges are read as.
* `Completes` — what has been read of a character can only become a character read from its bytes.
* `front_cases` — the first piece, by its first byte.
* **`bytes_pieces`** — the bytes of the pieces are the byte string.
-/

namespace LuaBytecode

namespace Utf8

/-! ## Characters by the number of their bytes -/

theorem utf8EncodeChar_of_lt {c : Char} (hc : c.toNat < 0x80) :
    String.utf8EncodeChar c = [UInt8.ofNat c.toNat] := by
  have hvalue : c.toNat ≤ 127 := Nat.le_of_lt_succ hc
  simp only [String.utf8EncodeChar, Char.toNat_val, if_pos hvalue]

section Width

variable {a b c d : UInt8}

theorem utf8EncodeChar_one (ha : a < 0x80) :
    String.utf8EncodeChar (Char.ofNat a.toNat) = [a] := by
  simp only [UInt8.lt_iff_toNat_lt, UInt8.reduceToNat] at ha
  have hvalid : a.toNat.isValidChar := Or.inl (by omega)
  rw [utf8EncodeChar_of_lt (by rwa [toNat_ofNat hvalid]), toNat_ofNat hvalid, UInt8.ofNat_toNat]

theorem utf8EncodeChar_two (ha : 0xC2 ≤ a ∧ a < 0xE0) (hb : 0x80 ≤ b ∧ b ≤ 0xBF) :
    String.utf8EncodeChar (Char.ofNat ((a.toNat - 0xC0) * 64 + b.toNat % 64)) = [a, b] := by
  simp only [UInt8.lt_iff_toNat_lt, UInt8.le_iff_toNat_le, UInt8.reduceToNat] at ha hb
  have hvalid : ((a.toNat - 0xC0) * 64 + b.toNat % 64).isValidChar := Or.inl (by omega)
  simp only [String.utf8EncodeChar, Char.toNat_val, toNat_ofNat hvalid]
  rw [if_neg (by omega), if_pos (by omega)]
  simp only [List.cons.injEq, and_true, ← UInt8.toNat_inj, UInt8.toNat_ofNat']
  omega

theorem utf8EncodeChar_three (ha : 0xE0 ≤ a ∧ a < 0xF0) (hb : 0x80 ≤ b ∧ b ≤ 0xBF)
    (hc : 0x80 ≤ c ∧ c ≤ 0xBF) (hshort : a = 0xE0 → 0xA0 ≤ b) (hsurrogate : a = 0xED → b ≤ 0x9F) :
    String.utf8EncodeChar (Char.ofNat (((a.toNat - 0xE0) * 64 + b.toNat % 64) * 64 + c.toNat % 64))
      = [a, b, c] := by
  simp only [UInt8.lt_iff_toNat_lt, UInt8.le_iff_toNat_le, ← UInt8.toNat_inj,
    UInt8.reduceToNat] at ha hb hc hshort hsurrogate
  have hvalid : (((a.toNat - 0xE0) * 64 + b.toNat % 64) * 64 + c.toNat % 64).isValidChar := by
    unfold Nat.isValidChar
    omega
  simp only [String.utf8EncodeChar, Char.toNat_val, toNat_ofNat hvalid]
  rw [if_neg (by omega), if_neg (by omega), if_pos (by omega)]
  simp only [List.cons.injEq, and_true, ← UInt8.toNat_inj, UInt8.toNat_ofNat']
  omega

theorem utf8EncodeChar_four (ha : 0xF0 ≤ a ∧ a < 0xF5) (hb : 0x80 ≤ b ∧ b ≤ 0xBF)
    (hc : 0x80 ≤ c ∧ c ≤ 0xBF) (hd : 0x80 ≤ d ∧ d ≤ 0xBF) (hshort : a = 0xF0 → 0x90 ≤ b)
    (hlast : a = 0xF4 → b ≤ 0x8F) :
    String.utf8EncodeChar (Char.ofNat
        ((((a.toNat - 0xF0) * 64 + b.toNat % 64) * 64 + c.toNat % 64) * 64 + d.toNat % 64))
      = [a, b, c, d] := by
  simp only [UInt8.lt_iff_toNat_lt, UInt8.le_iff_toNat_le, ← UInt8.toNat_inj,
    UInt8.reduceToNat] at ha hb hc hd hshort hlast
  have hvalid : ((((a.toNat - 0xF0) * 64 + b.toNat % 64) * 64 + c.toNat % 64) * 64
      + d.toNat % 64).isValidChar := Or.inr (by omega)
  simp only [String.utf8EncodeChar, Char.toNat_val, toNat_ofNat hvalid]
  rw [if_neg (by omega), if_neg (by omega), if_neg (by omega)]
  simp only [List.cons.injEq, and_true, ← UInt8.toNat_inj, UInt8.toNat_ofNat']
  omega

end Width

/-! ## Reading on -/

/-- **However it goes on, it is the encoding of the character that is read**: `passed` with the
bytes that are owed, if the next of them is between `low` and `high`. -/
def Completes (following : Nat) (low high : UInt8) (bits : Nat) (passed : Bytes) : Prop :=
  ∀ tail : Bytes, tail.length = following → (∀ b ∈ tail, 0x80 ≤ b ∧ b ≤ 0xBF) →
    (∀ b ∈ tail.head?, low ≤ b ∧ b ≤ high) →
    String.utf8EncodeChar (Char.ofNat (tail.foldl (fun v b => v * 64 + b.toNat % 64) bits))
      = passed ++ tail

theorem Completes.next {following : Nat} {low high : UInt8} {bits : Nat} {passed : Bytes} {b : UInt8}
    (h : Completes (following + 1) low high bits passed) (hb : low ≤ b ∧ b ≤ high)
    (hlow : 0x80 ≤ low) (hhigh : high ≤ 0xBF) :
    Completes following 0x80 0xBF (bits * 64 + b.toNat % 64) (passed ++ [b]) := by
  intro tail hlength htail _
  have hrange : 0x80 ≤ b ∧ b ≤ 0xBF := ⟨UInt8.le_trans hlow hb.1, UInt8.le_trans hb.2 hhigh⟩
  have hwhole := h (b :: tail) (by simp [hlength]) (by simpa using ⟨hrange, htail⟩) (by simpa using hb)
  simpa using hwhole

/-- **A first byte promises a character of its own bytes.** -/
theorem completes_lead {a : UInt8} {lead : Lead} (h : lead? a = some lead) :
    Completes lead.following lead.low lead.high lead.bits [a] := by
  intro tail hlength htail hhead
  unfold lead? at h
  by_cases h80 : a < 0x80
  · rw [if_pos h80] at h
    cases h
    obtain rfl := List.eq_nil_of_length_eq_zero hlength
    exact utf8EncodeChar_one h80
  rw [if_neg h80] at h
  by_cases hC2 : a < 0xC2
  · rw [if_pos hC2] at h
    cases h
  rw [if_neg hC2] at h
  by_cases hE0 : a < 0xE0
  · rw [if_pos hE0] at h
    cases h
    obtain ⟨b, rfl⟩ := List.length_eq_one_iff.mp hlength
    exact utf8EncodeChar_two ⟨UInt8.not_lt.mp hC2, hE0⟩ (hhead b rfl)
  rw [if_neg hE0] at h
  by_cases hF0 : a < 0xF0
  · rw [if_pos hF0] at h
    cases h
    obtain ⟨b, c, rfl⟩ := List.length_eq_two.mp hlength
    obtain ⟨hlow, hhigh⟩ := hhead b rfl
    exact utf8EncodeChar_three ⟨UInt8.not_lt.mp hE0, hF0⟩ (htail b (by simp)) (htail c (by simp))
      (fun ha => by simpa [ha] using hlow) (fun ha => by simpa [ha] using hhigh)
  rw [if_neg hF0] at h
  by_cases hF5 : a < 0xF5
  · rw [if_pos hF5] at h
    cases h
    obtain ⟨b, c, d, rfl⟩ := List.length_eq_three.mp hlength
    obtain ⟨hlow, hhigh⟩ := hhead b rfl
    exact utf8EncodeChar_four ⟨UInt8.not_lt.mp hF0, hF5⟩ (htail b (by simp)) (htail c (by simp))
      (htail d (by simp)) (fun ha => by simpa [ha] using hlow) (fun ha => by simpa [ha] using hhigh)
  rw [if_neg hF5] at h
  cases h

/-! ## Pieces and their bytes -/

/-- The bytes of a piece. -/
def Piece.bytes : Piece → Bytes
  | .char c => String.utf8EncodeChar c
  | .invalid bytes => bytes

/-- Reading on takes bytes from the front of `rest`, each in the range of those that follow. -/
theorem follow_taken (following : Nat) :
    ∀ {low high : UInt8} {bits : Nat} {passed : Bytes} (rest : Bytes), 0x80 ≤ low → high ≤ 0xBF →
      Completes following low high bits passed →
      ∃ taken, (follow following low high bits passed rest).1.bytes = passed ++ taken ∧
        rest = taken ++ (follow following low high bits passed rest).2 ∧
        ∀ b ∈ taken, 0x80 ≤ b ∧ b ≤ 0xBF := by
  induction following with
  | zero =>
      intro low high bits passed rest _ _ h
      exact ⟨[], h [] rfl (by simp) (by simp), rfl, by simp⟩
  | succ following ih =>
      intro low high bits passed rest hlow hhigh h
      cases rest with
      | nil => exact ⟨[], by simp [follow, Piece.bytes], rfl, by simp⟩
      | cons b rest =>
          rw [follow]
          split_ifs with hb
          · obtain ⟨taken, hbytes, hrest, hrange⟩ :=
              ih rest (Nat.le_refl _) (Nat.le_refl _) (h.next hb hlow hhigh)
            have hfirst : 0x80 ≤ b ∧ b ≤ 0xBF :=
              ⟨UInt8.le_trans hlow hb.1, UInt8.le_trans hb.2 hhigh⟩
            exact ⟨b :: taken, by simpa using hbytes, congrArg (b :: ·) hrest,
              by simpa using ⟨hfirst, hrange⟩⟩
          · exact ⟨[], by simp [Piece.bytes], rfl, by simp⟩

/-- **The first piece**: a byte that is a character of its own, or a byte with the top bit and what
it takes from behind it. -/
theorem front_cases (a : UInt8) (rest : Bytes) :
    (a < 0x80 ∧ front a rest = (.char (Char.ofNat a.toNat), rest)) ∨
    (0x80 ≤ a ∧ ∃ taken, (front a rest).1.bytes = a :: taken ∧ rest = taken ++ (front a rest).2 ∧
      ∀ b ∈ taken, 0x80 ≤ b ∧ b ≤ 0xBF) := by
  unfold front
  cases hlead : lead? a with
  | none =>
      have ha : 0x80 ≤ a := by
        by_contra hsmall
        rw [lead?, if_pos (UInt8.not_le.mp hsmall)] at hlead
        cases hlead
      exact Or.inr ⟨ha, [], rfl, rfl, by simp⟩
  | some lead =>
      rcases lead?_eq_some hlead with ⟨hone, hfollowing, hbits⟩ | ⟨hmany, -, hlow, hhigh, -⟩
      · exact Or.inl ⟨hone, by simp only [hfollowing, hbits, follow]⟩
      · exact Or.inr ⟨hmany, follow_taken _ rest hlow hhigh (completes_lead hlead)⟩

/-- Bytes that encode no character are some, and each has the top bit. -/
theorem of_front_eq_invalid {a : UInt8} {rest invalid : Bytes}
    (h : (front a rest).1 = .invalid invalid) : invalid ≠ [] ∧ ∀ b ∈ invalid, 0x80 ≤ b := by
  rcases front_cases a rest with ⟨-, hfront⟩ | ⟨ha, taken, hbytes, -, hrange⟩
  · rw [hfront] at h
    cases h
  · rw [h, Piece.bytes] at hbytes
    subst hbytes
    exact ⟨List.cons_ne_nil _ _, List.forall_mem_cons.mpr ⟨ha, fun b hb => (hrange b hb).1⟩⟩

theorem bytes_front (a : UInt8) (rest : Bytes) :
    (front a rest).1.bytes ++ (front a rest).2 = a :: rest := by
  rcases front_cases a rest with ⟨hsmall, hfront⟩ | ⟨-, taken, hbytes, hrest, -⟩
  · rw [hfront, Piece.bytes, utf8EncodeChar_one hsmall, List.singleton_append]
  · rw [hbytes, List.cons_append, ← hrest]

theorem length_front (a : UInt8) (rest : Bytes) :
    (front a rest).1.bytes.length + (front a rest).2.length = (a :: rest).length := by
  rw [← List.length_append, bytes_front]

/-- A character that starts with a byte with the top bit is none of the first 128. -/
theorem high_of_front_eq_char {a : UInt8} {rest : Bytes} {c : Char} (ha : 0x80 ≤ a)
    (h : (front a rest).1 = .char c) : 0x80 ≤ c.toNat := by
  by_contra hlow
  have hbytes := bytes_front a rest
  rw [h, Piece.bytes, utf8EncodeChar_of_lt (Nat.lt_of_not_le hlow), List.singleton_append] at hbytes
  rw [← List.head_eq_of_cons_eq hbytes] at ha
  simp only [UInt8.le_iff_toNat_le, UInt8.toNat_ofNat', UInt8.reduceToNat] at ha
  omega

/-- Which character starts with the least first byte of two is the number of the second. -/
theorem front_C2 (rest : Bytes) :
    front 0xC2 rest = (.invalid [0xC2], rest) ∧ (∀ b ∈ rest.head?, ¬ (0x80 ≤ b ∧ b ≤ 0xBF)) ∨
    ∃ b tail, rest = b :: tail ∧ (0x80 ≤ b ∧ b ≤ 0xBF) ∧
      front 0xC2 rest = (.char (Char.ofNat b.toNat), tail) := by
  have hfront : front 0xC2 rest = follow 1 0x80 0xBF 2 [0xC2] rest := rfl
  rw [hfront]
  cases rest with
  | nil => exact Or.inl ⟨rfl, by simp⟩
  | cons b tail =>
      by_cases hb : 0x80 ≤ b ∧ b ≤ 0xBF
      · refine Or.inr ⟨b, tail, rfl, hb, ?_⟩
        rw [follow, if_pos hb, follow]
        simp only [UInt8.le_iff_toNat_le, UInt8.reduceToNat] at hb
        have hvalue : 2 * 64 + b.toNat % 64 = b.toNat := by omega
        rw [hvalue]
      · refine Or.inl ⟨?_, by simpa using hb⟩
        rw [follow, if_neg hb]

/-- **A byte string is its pieces**, one behind the other. -/
theorem bytes_pieces (bytes : Bytes) : (pieces bytes).flatMap Piece.bytes = bytes := by
  induction bytes using piecesInduction with
  | nil => rw [pieces_nil, List.flatMap_nil]
  | cons b rest ih => rw [pieces_cons, List.flatMap_cons, ih, bytes_front]

end Utf8

end LuaBytecode
