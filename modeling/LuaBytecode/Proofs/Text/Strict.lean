import LuaBytecode.Proofs.Text.Pieces

/-!
# Which byte strings are text

`strict?` takes a byte string apart into pieces and refuses it if one of them is no character.  What
it accepts is exactly what encodes a text, and it finds that text.  One half is `bytes_pieces`: the
characters it finds have the bytes it was given.  For the other half the encoding of a character has
to be one piece, whatever stands behind it: its first byte announces the others.

* `announced_two` and its kin — the bytes of a character, by their number.
* `front_utf8EncodeChar` — so a character at the start of a byte string is its first piece.
* `isText_encode`, `encode_lossy` — the two halves.
* **`strict?_eq_some_iff`** — a byte string is read as a text exactly if it encodes it.
-/

namespace LuaBytecode

namespace Utf8

/-! ## What a first byte announces -/

/-- A first byte announces the bytes behind it: how many there are, and the range of the first. -/
def Announced (a : UInt8) (tail : Bytes) : Prop :=
  ∃ lead, lead? a = some lead ∧ tail.length = lead.following ∧
    (∀ b ∈ tail, 0x80 ≤ b ∧ b ≤ 0xBF) ∧ ∀ b ∈ tail.head?, lead.low ≤ b ∧ b ≤ lead.high

/-- Six bits of a number behind a first byte. -/
theorem follower_range (n : Nat) :
    0x80 ≤ UInt8.ofNat (n % 64 + 0x80) ∧ UInt8.ofNat (n % 64 + 0x80) ≤ 0xBF := by
  simp only [UInt8.le_iff_toNat_le, UInt8.toNat_ofNat', UInt8.reduceToNat]
  omega

section Announced

variable {v : Nat}

theorem announced_one (h : v ≤ 0x7F) : Announced (UInt8.ofNat v) [] := by
  have ha : UInt8.ofNat v < 0x80 := by
    simp only [UInt8.lt_iff_toNat_lt, UInt8.toNat_ofNat', UInt8.reduceToNat]
    omega
  exact ⟨_, if_pos ha, rfl, List.forall_mem_nil _, by simp⟩

theorem announced_two (h : 0x7F < v) (h' : v ≤ 0x7FF) :
    Announced (UInt8.ofNat (v / 64 % 32 + 0xC0)) [UInt8.ofNat (v % 64 + 0x80)] := by
  generalize ha : UInt8.ofNat (v / 64 % 32 + 0xC0) = a
  have hvalue : a.toNat = v / 64 + 0xC0 := by
    rw [← ha, UInt8.toNat_ofNat']
    omega
  have hlead : lead? a = some ⟨1, 0x80, 0xBF, a.toNat - 0xC0⟩ := by
    simp only [lead?, UInt8.lt_iff_toNat_lt, UInt8.reduceToNat, hvalue]
    rw [if_neg (by omega), if_neg (by omega), if_pos (by omega)]
  refine ⟨_, hlead, rfl, List.forall_mem_singleton.mpr (follower_range v), ?_⟩
  simpa only [List.head?_cons, Option.mem_def, Option.some.injEq, forall_eq'] using follower_range v

/-- The second byte is narrowed since no shorter form would do, and since no character has the
number of a surrogate. -/
theorem announced_three (h : 0x7FF < v) (h' : v ≤ 0xFFFF) (hsurrogate : v < 0xD800 ∨ 0xDFFF < v) :
    Announced (UInt8.ofNat (v / 4096 % 16 + 0xE0))
      [UInt8.ofNat (v / 64 % 64 + 0x80), UInt8.ofNat (v % 64 + 0x80)] := by
  generalize ha : UInt8.ofNat (v / 4096 % 16 + 0xE0) = a
  have hvalue : a.toNat = v / 4096 + 0xE0 := by
    rw [← ha, UInt8.toNat_ofNat']
    omega
  have hlead : lead? a = some ⟨2, if a = 0xE0 then 0xA0 else 0x80, if a = 0xED then 0x9F else 0xBF,
      a.toNat - 0xE0⟩ := by
    simp only [lead?, UInt8.lt_iff_toNat_lt, UInt8.reduceToNat, hvalue]
    rw [if_neg (by omega), if_neg (by omega), if_neg (by omega), if_pos (by omega)]
  refine ⟨_, hlead, rfl, List.forall_mem_cons.mpr ⟨follower_range (v / 64),
    List.forall_mem_singleton.mpr (follower_range v)⟩, ?_⟩
  simp only [List.head?_cons, Option.mem_def, Option.some.injEq, forall_eq']
  simp only [← UInt8.toNat_inj, UInt8.le_iff_toNat_le, apply_ite UInt8.toNat, UInt8.toNat_ofNat',
    UInt8.reduceToNat, hvalue]
  constructor
  · split_ifs <;> omega
  · split_ifs <;> omega

theorem announced_four (h : 0xFFFF < v) (h' : v < 0x110000) :
    Announced (UInt8.ofNat (v / 262144 % 8 + 0xF0)) [UInt8.ofNat (v / 4096 % 64 + 0x80),
      UInt8.ofNat (v / 64 % 64 + 0x80), UInt8.ofNat (v % 64 + 0x80)] := by
  generalize ha : UInt8.ofNat (v / 262144 % 8 + 0xF0) = a
  have hvalue : a.toNat = v / 262144 + 0xF0 := by
    rw [← ha, UInt8.toNat_ofNat']
    omega
  have hlead : lead? a = some ⟨3, if a = 0xF0 then 0x90 else 0x80, if a = 0xF4 then 0x8F else 0xBF,
      a.toNat - 0xF0⟩ := by
    simp only [lead?, UInt8.lt_iff_toNat_lt, UInt8.reduceToNat, hvalue]
    rw [if_neg (by omega), if_neg (by omega), if_neg (by omega), if_neg (by omega),
      if_pos (by omega)]
  refine ⟨_, hlead, rfl, List.forall_mem_cons.mpr ⟨follower_range (v / 4096),
    List.forall_mem_cons.mpr ⟨follower_range (v / 64),
      List.forall_mem_singleton.mpr (follower_range v)⟩⟩, ?_⟩
  simp only [List.head?_cons, Option.mem_def, Option.some.injEq, forall_eq']
  simp only [← UInt8.toNat_inj, UInt8.le_iff_toNat_le, apply_ite UInt8.toNat, UInt8.toNat_ofNat',
    UInt8.reduceToNat, hvalue]
  constructor
  · split_ifs <;> omega
  · split_ifs <;> omega

end Announced

theorem utf8EncodeChar_announced (c : Char) :
    ∃ a tail, String.utf8EncodeChar c = a :: tail ∧ Announced a tail := by
  have hvalid : c.toNat < 0xD800 ∨ 0xDFFF < c.toNat ∧ c.toNat < 0x110000 := c.valid
  simp only [String.utf8EncodeChar, Char.toNat_val]
  split_ifs with h1 h2 h3
  · exact ⟨_, _, rfl, announced_one h1⟩
  · exact ⟨_, _, rfl, announced_two (Nat.lt_of_not_le h1) h2⟩
  · exact ⟨_, _, rfl, announced_three (Nat.lt_of_not_le h2) h3 (hvalid.imp_right And.left)⟩
  · exact ⟨_, _, rfl, announced_four (Nat.lt_of_not_le h3) (by omega)⟩

/-! ## A character is one piece -/

/-- As many bytes as are owed, each in its range, make a character. -/
theorem follow_announced (following : Nat) :
    ∀ {low high : UInt8} {bits : Nat} {passed tail : Bytes} (rest : Bytes),
      tail.length = following → (∀ b ∈ tail, 0x80 ≤ b ∧ b ≤ 0xBF) →
      (∀ b ∈ tail.head?, low ≤ b ∧ b ≤ high) →
      ∃ c, follow following low high bits passed (tail ++ rest) = (.char c, rest) := by
  induction following with
  | zero =>
      intro low high bits passed tail rest hlength _ _
      obtain rfl := List.eq_nil_of_length_eq_zero hlength
      exact ⟨_, rfl⟩
  | succ following ih =>
      intro low high bits passed tail rest hlength hrange hfirst
      obtain ⟨b, tail, rfl⟩ := List.exists_cons_of_length_eq_add_one hlength
      rw [List.forall_mem_cons] at hrange
      rw [List.cons_append, follow, if_pos (hfirst b rfl)]
      exact ih rest (Nat.succ.inj hlength) hrange.2 fun b hb =>
        hrange.2 b (List.mem_of_mem_head? hb)

/-- **A character at the start of a byte string is its first piece**, whatever stands behind it. -/
theorem front_utf8EncodeChar (c : Char) :
    ∃ a tail, String.utf8EncodeChar c = a :: tail ∧
      ∀ rest, ∃ c', front a (tail ++ rest) = (.char c', rest) := by
  obtain ⟨a, tail, hbytes, lead, hlead, hlength, hrange, hfirst⟩ := utf8EncodeChar_announced c
  refine ⟨a, tail, hbytes, fun rest => ?_⟩
  rw [front, hlead]
  exact follow_announced lead.following rest hlength hrange hfirst

/-! ## Texts -/

/-- A byte string of characters alone. -/
def IsText (bytes : Bytes) : Prop := ∀ p ∈ pieces bytes, ∃ c, p = .char c

theorem isText_encode (text : String) : IsText (encode text) := by
  rw [encode]
  induction text.toList with
  | nil => simp [IsText]
  | cons c text ih =>
      obtain ⟨a, tail, hbytes, hfront⟩ := front_utf8EncodeChar c
      obtain ⟨c', hc'⟩ := hfront (text.flatMap String.utf8EncodeChar)
      rw [IsText, List.flatMap_cons, hbytes, List.cons_append, pieces_cons, hc',
        List.forall_mem_cons]
      exact ⟨⟨c', rfl⟩, ih⟩

/-- If each piece is a character, the characters that are shown have the bytes of the pieces. -/
theorem encode_lossy {bytes : Bytes} (h : IsText bytes) : encode (lossy bytes) = bytes := by
  have hshown : ∀ p ∈ pieces bytes, String.utf8EncodeChar p.shown = p.bytes := by
    intro p hp
    obtain ⟨c, rfl⟩ := h p hp
    rfl
  calc encode (lossy bytes)
      = (pieces bytes).flatMap fun p => String.utf8EncodeChar p.shown := by
        rw [encode, lossy, String.toList_ofList, List.flatMap_map]
    _ = (pieces bytes).flatMap Piece.bytes := List.flatMap_congr hshown
    _ = bytes := bytes_pieces bytes

theorem encode_inj {s t : String} (h : encode s = encode t) : s = t := by
  refine String.toByteArray_inj.mp ?_
  rw [← String.utf8Encode_toList, ← String.utf8Encode_toList]
  exact congrArg List.toByteArray h

theorem strict?_of_isText {bytes : Bytes} (h : IsText bytes) :
    strict? bytes = some (lossy bytes) := by
  refine if_pos (List.all_eq_true.mpr fun p hp => ?_)
  obtain ⟨c, rfl⟩ := h p hp
  rfl

theorem strict?_encode (text : String) : strict? (encode text) = some text := by
  rw [strict?_of_isText (isText_encode text), encode_inj (encode_lossy (isText_encode text))]

theorem of_strict?_eq_some {bytes : Bytes} {text : String} (h : strict? bytes = some text) :
    IsText bytes ∧ lossy bytes = text := by
  obtain ⟨hall, htext⟩ := Option.ite_none_right_eq_some.mp h
  refine ⟨fun p hp => ?_, Option.some.inj htext⟩
  have hp := List.all_eq_true.mp hall p hp
  cases p with
  | char c => exact ⟨c, rfl⟩
  | invalid bytes => cases hp

/-- **A byte string is read as a text exactly if it encodes it.** -/
theorem strict?_eq_some_iff {bytes : Bytes} {text : String} :
    strict? bytes = some text ↔ encode text = bytes := by
  constructor
  · intro h
    obtain ⟨htext, rfl⟩ := of_strict?_eq_some h
    exact encode_lossy htext
  · rintro rfl
    exact strict?_encode text

theorem strict?_eq_none_iff {bytes : Bytes} :
    strict? bytes = none ↔ ∀ text, encode text ≠ bytes := by
  rw [Option.eq_none_iff_forall_ne_some]
  exact forall_congr' fun text => not_congr strict?_eq_some_iff

end Utf8

end LuaBytecode
