import LuaBytecode.Text.Utf8
import Mathlib.Tactic.SplitIfs

/-!
# What of a byte string its text shows

The text of a byte string is made piece by piece, and no piece hides a line feed: in a character of
several bytes each byte has the top bit, and so has each byte of a run that encodes no character.

* `piecesInduction`, `pieces_cons` — a byte string is its first piece and what lies behind it.
* `lead?_eq_some` — what a first byte announces.
* `follow_lineFeed`, `front_lineFeed` — a piece is a line feed exactly if it is that one byte.
* **`count_lossy`** — a text has as many line feeds as its bytes.
-/

namespace LuaBytecode

namespace Utf8

/-! ## Pieces -/

/-- What a byte string has if what lies behind its first piece has it, every byte string has. -/
@[elab_as_elim]
theorem piecesInduction {motive : Bytes → Prop} (nil : motive [])
    (cons : ∀ b rest, motive (front b rest).2 → motive (b :: rest)) :
    ∀ bytes, motive bytes
  | [] => nil
  | b :: rest => cons b rest (piecesInduction nil cons (front b rest).2)
termination_by bytes => bytes.length
decreasing_by exact Nat.lt_succ_of_le (length_front_le b rest)

theorem piecesOnto_eq (done : List Piece) (bytes : Bytes) :
    piecesOnto done bytes = done.reverse ++ pieces bytes := by
  induction bytes using piecesInduction generalizing done with
  | nil => rw [pieces, piecesOnto, piecesOnto, List.reverse_nil, List.append_nil]
  | cons b rest ih => rw [pieces, piecesOnto, piecesOnto, ih, ih, List.reverse_cons]; simp

@[simp] theorem pieces_nil : pieces [] = [] := by rw [pieces, piecesOnto, List.reverse_nil]

theorem pieces_cons (b : UInt8) (rest : Bytes) :
    pieces (b :: rest) = (front b rest).1 :: pieces (front b rest).2 := by
  rw [pieces, piecesOnto, piecesOnto_eq]
  rfl

/-! ## First bytes -/

/-- **What a first byte announces**: itself, if it is a character; otherwise that bytes with the top
bit follow, the least of which brings the number above a line feed. -/
theorem lead?_eq_some {b : UInt8} {lead : Lead} (h : lead? b = some lead) :
    (b < 0x80 ∧ lead.following = 0 ∧ lead.bits = b.toNat) ∨
    (0x80 ≤ b ∧ 0 < lead.following ∧ 0x80 ≤ lead.low ∧ lead.high ≤ 0xBF ∧
      0x0A < lead.bits * 64 + lead.low.toNat % 64) := by
  unfold lead? at h
  split_ifs at h with hone
  · cases h
    exact Or.inl ⟨hone, rfl, rfl⟩
  all_goals
    cases h
    right
    simp only [← UInt8.toNat_inj, UInt8.lt_iff_toNat_lt, UInt8.le_iff_toNat_le,
      UInt8.reduceToNat] at *
    omega

/-! ## Line feeds -/

theorem toNat_ofNat {n : Nat} (h : n.isValidChar) : (Char.ofNat n).toNat = n := by
  rw [Char.ofNat, dif_pos h]
  rfl

theorem ofNat_eq_lineFeed_iff {n : Nat} : Char.ofNat n = '\n' ↔ n = 0x0A := by
  constructor
  · intro h
    have hvalue : (Char.ofNat n).toNat = 0x0A := by rw [h]; rfl
    by_cases hvalid : n.isValidChar
    · rwa [toNat_ofNat hvalid] at hvalue
    · rw [Char.ofNat, dif_neg hvalid] at hvalue
      cases hvalue
  · rintro rfl
    rfl

theorem invalid_ne_lineFeed {bytes : Bytes} : (Piece.invalid bytes).shown ≠ '\n' := by
  rw [Piece.shown]
  decide

/-- A character of several bytes is no line feed, and neither are the bytes that are read for it,
whether or not they make one.  The number is above a line feed, or it will be with the next byte:
the least second byte of a long form is what keeps a shorter character out of it. -/
theorem follow_lineFeed (following : Nat) :
    ∀ {low high : UInt8} {bits : Nat} (passed rest : Bytes), 0x80 ≤ low → high ≤ 0xBF →
      (0x0A < bits ∨ 0 < following ∧ 0x0A < bits * 64 + low.toNat % 64) →
      (follow following low high bits passed rest).1.shown ≠ '\n' ∧
        (follow following low high bits passed rest).2.count 0x0A = rest.count 0x0A := by
  induction following with
  | zero =>
      intro low high bits passed rest _ _ hbits
      have hlarge : 0x0A < bits := hbits.resolve_right fun h => Nat.lt_irrefl 0 h.1
      exact ⟨fun h => Nat.ne_of_gt hlarge (ofNat_eq_lineFeed_iff.mp h), rfl⟩
  | succ following ih =>
      intro low high bits passed rest hlow hhigh hbits
      cases rest with
      | nil => exact ⟨invalid_ne_lineFeed, rfl⟩
      | cons b rest =>
          rw [follow]
          split_ifs with hb
          · simp only [UInt8.le_iff_toNat_le, UInt8.reduceToNat] at hlow hhigh hb
            have hnext : 0x0A < bits * 64 + b.toNat % 64 := by omega
            have hne : b ≠ 0x0A := by
              rintro rfl
              simp only [UInt8.reduceToNat] at hb
              omega
            obtain ⟨hshown, hcount⟩ :=
              ih (passed ++ [b]) rest (Nat.le_refl _) (Nat.le_refl _) (Or.inl hnext)
            exact ⟨hshown, by rw [hcount, List.count_cons_of_ne hne]⟩
          · exact ⟨invalid_ne_lineFeed, rfl⟩

/-- The first piece is a line feed exactly if it is that byte, and no other byte of it is one. -/
theorem front_lineFeed (b : UInt8) (rest : Bytes) :
    ((front b rest).1.shown = '\n' ↔ b = 0x0A) ∧
      (front b rest).2.count 0x0A = rest.count 0x0A := by
  unfold front
  cases hlead : lead? b with
  | none =>
      have hb : b ≠ 0x0A := fun h => by subst h; cases hlead
      exact ⟨iff_of_false invalid_ne_lineFeed hb, rfl⟩
  | some lead =>
      rcases lead?_eq_some hlead with ⟨hone, hfollowing, hbits⟩ |
        ⟨hmany, hfollowing, hlow, hhigh, hbits⟩
      · simp only [hfollowing, hbits, follow, Piece.shown, ofNat_eq_lineFeed_iff]
        exact ⟨UInt8.toNat_inj (b := 0x0A), trivial⟩
      · obtain ⟨hshown, hcount⟩ := follow_lineFeed lead.following [b] rest hlow hhigh
          (Or.inr ⟨hfollowing, hbits⟩)
        have hb : b ≠ 0x0A := fun h => by subst h; exact absurd hmany (by decide)
        exact ⟨iff_of_false hshown hb, hcount⟩

/-- **A text has as many line feeds as its bytes.** -/
theorem count_lossy (bytes : Bytes) : (lossy bytes).toList.count '\n' = bytes.count 0x0A := by
  rw [lossy, String.toList_ofList]
  induction bytes using piecesInduction with
  | nil => rw [pieces_nil]; rfl
  | cons b rest ih =>
      obtain ⟨hfirst, hrest⟩ := front_lineFeed b rest
      rw [pieces_cons, List.map_cons, List.count_cons, List.count_cons, ih, hrest]
      simp only [beq_iff_eq, hfirst]

end Utf8

end LuaBytecode
