import LuaBytecode.Constant.Display
import LuaBytecode.Proofs.Text.Literal
import LuaBytecode.Proofs.Text.Numeral
import LuaBytecode.Proofs.Text.Pieces
import Mathlib.Data.List.Chain

/-!
# Reading a quoted byte string back

The quoted form of a byte string is made to be read, and it nearly can be.  Two neighbours in the
string spoil it: a control character of two bytes is written as its number, which is read as one
byte, and a control character with a number of fewer than three digits runs into a digit behind it.
Bytes that encode no character do neither, since each is written by itself and with three digits.

* `yields_numeric`, `escape_cases`, `yields_escape` — what stands for a character is read right.
* `gives_wide`, `gives_escape_digit` — except in two places, where a byte is lost.
* `Apart` — two bytes that may stand side by side.
* `isChain_front` — the neighbours in a byte string, by its first piece.
* `yields_body_iff` — one piece after the other.
* **`read_encode_iff`** — a byte string is read back exactly if all neighbours are apart.
* **`Constant.read_display_string`** — so are string constants, which are told apart by their
  quoted form then; `Constant.display_string_collisions` has strings that are not.
-/

namespace LuaBytecode

namespace Quoted

open Literal Utf8

/-! ## Characters -/

/-- A control character whose number has fewer than three digits and that has no letter. -/
def IsShort (c : Char) : Prop :=
  c.toNat < 0x20 ∧ c.toNat ≠ 0x09 ∧ c.toNat ≠ 0x0A ∧ c.toNat ≠ 0x0D

/-- A control character whose number is not its bytes. -/
def IsWide (c : Char) : Prop := 0x80 ≤ c.toNat ∧ c.toNat < 0xA0

variable {state next : State} {c : Char}

theorem utf8EncodeChar_of_isWide (hc : IsWide c) :
    String.utf8EncodeChar c = [0xC2, UInt8.ofNat c.toNat] := by
  unfold IsWide at hc
  simp only [String.utf8EncodeChar, Char.toNat_val]
  rw [if_neg (by omega), if_pos (by omega)]
  simp only [List.cons.injEq, and_true, ← UInt8.toNat_inj, UInt8.toNat_ofNat', UInt8.reduceToNat]
  omega

/-- The number of a byte is read to its end, unless it might have had more digits. -/
theorem yields_numeric {n : Nat} (hinside : state.Inside) (hn : n < 0x100) :
    ∃ next, Yields state (numeric n) [UInt8.ofNat n] next ∧ (next.IsOpen ↔ n < 100) := by
  have hdigits : ∀ n < 0x100, feed .escape (Nat.toDigits 10 n) =
      some ([], .number (if n < 10 then 2 else if n < 100 then 1 else 0) (UInt8.ofNat n)) := by
    decide +kernel
  refine ⟨.number (if n < 10 then 2 else if n < 100 then 1 else 0) (UInt8.ofNat n),
    ⟨trivial, state.owed, ?_, rfl⟩, ?_⟩
  · rw [numeric, feed_backslash hinside, hdigits n hn]
    simp
  · rw [State.IsOpen]
    split_ifs <;> omega

/-- **What stands for a character**: a letter, its number, or itself. -/
theorem escape_cases (c : Char) :
    ((c.toNat = 0x09 ∨ c.toNat = 0x0A ∨ c.toNat = 0x0D ∨ c.toNat = 0x22 ∨ c.toNat = 0x5C) ∧
      ∃ letter, escape c = ['\\', letter] ∧ ¬ letter.isDigit ∧
        letter? letter = some (UInt8.ofNat c.toNat)) ∨
    ((c.toNat ≠ 0x09 ∧ c.toNat ≠ 0x0A ∧ c.toNat ≠ 0x0D) ∧
      (c.toNat < 0x20 ∨ 0x7F ≤ c.toNat ∧ c.toNat < 0xA0) ∧ escape c = numeric c.toNat) ∨
    (c ∉ ['"', '\\', '\n', '\r'] ∧ (0x20 ≤ c.toNat ∧ c.toNat < 0x7F ∨ 0xA0 ≤ c.toNat) ∧
      escape c = [c]) := by
  unfold escape
  split
  · exact Or.inl ⟨by decide, '"', rfl, by decide, rfl⟩
  · exact Or.inl ⟨by decide, '\\', rfl, by decide, rfl⟩
  · exact Or.inl ⟨by decide, 'n', rfl, by decide, rfl⟩
  · exact Or.inl ⟨by decide, 'r', rfl, by decide, rfl⟩
  · exact Or.inl ⟨by decide, 't', rfl, by decide, rfl⟩
  · next hquote hslash hfeed hreturn htab =>
      right
      split_ifs with hcontrol
      · simp only [← Char.toNat_inj, Char.reduceToNat] at htab hfeed hreturn
        exact Or.inl ⟨⟨htab, hfeed, hreturn⟩, by simpa [isControl] using hcontrol, rfl⟩
      · have hrange : 0x20 ≤ c.toNat ∧ c.toNat < 0x7F ∨ 0xA0 ≤ c.toNat := by
          simp [isControl] at hcontrol
          omega
        exact Or.inr ⟨by simpa using ⟨hquote, hslash, hfeed, hreturn⟩, hrange, rfl⟩

/-- What stands for a character is read right where it does not continue an escape, unless the
character has its number in place of two bytes. -/
theorem yields_escape (hinside : state.Inside) (hdigit : state.IsOpen → ¬ c.isDigit)
    (hwide : ¬ IsWide c) :
    ∃ next, Yields state (escape c) (String.utf8EncodeChar c) next ∧ (next.IsOpen ↔ IsShort c) := by
  unfold IsWide at hwide
  unfold IsShort
  rcases escape_cases c with ⟨hc, letter, hescape, hletter, hbyte⟩ | ⟨hc, hcontrol, hescape⟩ |
    ⟨hc, hplain, hescape⟩
  · rw [hescape, utf8EncodeChar_of_lt (by omega)]
    exact ⟨.text, yields_letter hinside hletter hbyte, iff_of_false id (by omega)⟩
  · rw [hescape, utf8EncodeChar_of_lt (by omega)]
    obtain ⟨next, hyields, hopen⟩ := yields_numeric hinside (n := c.toNat) (by omega)
    exact ⟨next, hyields, hopen.trans (by omega)⟩
  · rw [hescape]
    exact ⟨.text, yields_plain hinside hdigit hc, iff_of_false id (by omega)⟩

/-- A control character outside of the first 128 loses a byte. -/
theorem gives_wide (hinside : state.Inside) (hc : IsWide c) : Gives state (escape c) 1 := by
  unfold IsWide at hc
  have hescape : escape c = numeric c.toNat := by
    rcases escape_cases c with ⟨hletter, -⟩ | ⟨-, -, hescape⟩ | ⟨-, hplain, -⟩
    · omega
    · exact hescape
    · omega
  obtain ⟨next, hyields, -⟩ := yields_numeric hinside (n := c.toNat) (by omega)
  rw [hescape]
  exact hyields.gives

/-- A digit behind an escape that it continues is lost. -/
theorem gives_escape_digit (hopen : state.IsOpen) (hc : c.isDigit) :
    Gives state (escape c) 0 ∧ (String.utf8EncodeChar c).length = 1 := by
  have hrange := isDigit_iff.mp hc
  have hescape : escape c = [c] := by
    rcases escape_cases c with ⟨hletter, -⟩ | ⟨-, hcontrol, -⟩ | ⟨-, -, hescape⟩
    · omega
    · omega
    · exact hescape
  rw [hescape, utf8EncodeChar_of_lt (by omega)]
  exact ⟨gives_digit hopen hc, rfl⟩

/-- Bytes that encode no character are read one by one. -/
theorem yields_invalid {bytes : Bytes} (hinside : state.Inside)
    (hopen : bytes = [] → ¬ state.IsOpen) (hhigh : ∀ b ∈ bytes, 0x80 ≤ b) :
    ∃ next, Yields state (piece (.invalid bytes)) bytes next ∧ ¬ next.IsOpen := by
  induction bytes generalizing state with
  | nil => exact ⟨state, yields_nil hinside, hopen rfl⟩
  | cons b bytes ih =>
      obtain ⟨hb, hhigh⟩ := List.forall_mem_cons.mp hhigh
      simp only [UInt8.le_iff_toNat_le, UInt8.reduceToNat] at hb
      obtain ⟨next, hfirst, hnext⟩ := yields_numeric hinside b.toNat_lt
      have hclosed : ¬ next.IsOpen := fun h => absurd (hnext.mp h) (by omega)
      obtain ⟨last, hrest, hlast⟩ := ih hfirst.1 (fun _ => hclosed) hhigh
      rw [UInt8.ofNat_toNat] at hfirst
      exact ⟨last, hfirst.append_iff.mpr hrest, hlast⟩

/-! ## Pieces -/

/-- The piece ends in an escape that a digit would continue. -/
def LeavesOpen : Piece → Prop
  | .char c => IsShort c
  | .invalid _ => False

/-- The piece would continue an escape in front of it. -/
def StartsDigit : Piece → Prop
  | .char c => c.isDigit
  | .invalid _ => False

/-- What stands for the piece has the number of its character in place of its bytes. -/
def LosesByte : Piece → Prop
  | .char c => IsWide c
  | .invalid _ => False

/-- The piece is not read right from there. -/
def Clash (state : State) (p : Piece) : Prop := state.IsOpen ∧ StartsDigit p ∨ LosesByte p

variable {p : Piece}

/-- A piece is read right unless it clashes. -/
theorem yields_piece (hinside : state.Inside)
    (hvalid : ∀ bytes, p = .invalid bytes → bytes ≠ [] ∧ ∀ b ∈ bytes, 0x80 ≤ b)
    (hclash : ¬ Clash state p) :
    ∃ next, Yields state (piece p) p.bytes next ∧ (next.IsOpen ↔ LeavesOpen p) := by
  rw [Clash, not_or, not_and] at hclash
  cases p with
  | char c => exact yields_escape hinside hclash.1 hclash.2
  | invalid bytes =>
      obtain ⟨hsome, hhigh⟩ := hvalid bytes rfl
      obtain ⟨next, hyields, hclosed⟩ := yields_invalid hinside (fun h => absurd h hsome) hhigh
      exact ⟨next, hyields, iff_of_false hclosed id⟩

/-- A piece that clashes loses a byte. -/
theorem gives_piece (hinside : state.Inside) (hclash : Clash state p) :
    ∃ count < p.bytes.length, Gives state (piece p) count := by
  cases p with
  | char c =>
      rcases hclash with ⟨hopen, hc⟩ | hc
      · obtain ⟨hgives, hlength⟩ := gives_escape_digit hopen hc
        exact ⟨0, by rw [Piece.bytes, hlength]; decide, hgives⟩
      · exact ⟨1, by rw [Piece.bytes, utf8EncodeChar_of_isWide hc]; simp, gives_wide hinside hc⟩
  | invalid bytes => exact (hclash.elim And.right id).elim

/-- What stands between the quotes. -/
def body (bytes : Bytes) : List Char := (pieces bytes).flatMap piece

theorem body_cons (b : UInt8) (rest : Bytes) :
    body (b :: rest) = piece (front b rest).1 ++ body (front b rest).2 := by
  rw [body, pieces_cons, List.flatMap_cons, body]

theorem gives_body (bytes : Bytes) (hinside : state.Inside) :
    Gives state (body bytes) bytes.length := by
  induction bytes using piecesInduction generalizing state with
  | nil =>
      rw [body, pieces_nil]
      exact (yields_nil hinside).gives
  | cons a rest ih =>
      have hfront : Gives state (piece (front a rest).1) (front a rest).1.bytes.length := by
        by_cases hclash : Clash state (front a rest).1
        · obtain ⟨count, hcount, hgives⟩ := gives_piece hinside hclash
          exact hgives.mono (Nat.le_of_lt hcount)
        · obtain ⟨next, hyields, -⟩ := yields_piece hinside (fun _ => of_front_eq_invalid) hclash
          exact hyields.gives
      rw [body_cons, ← length_front]
      exact hfront.append fun next hnext => ih hnext

/-! ## Bytes -/

/-- **Two bytes that may stand side by side**: they are not a control character of two bytes, and
the second is no digit that would continue the number of the first. -/
def Apart (b c : UInt8) : Prop :=
  ¬ (b = 0xC2 ∧ 0x80 ≤ c ∧ c < 0xA0) ∧
    ¬ ((b < 0x20 ∧ b ≠ 0x09 ∧ b ≠ 0x0A ∧ b ≠ 0x0D) ∧ 0x30 ≤ c ∧ c ≤ 0x39)

instance (b c : UInt8) : Decidable (Apart b c) := inferInstanceAs (Decidable (_ ∧ _))

theorem apart_of_high {b c : UInt8} (hb : 0x80 ≤ b) (hne : b ≠ 0xC2) : Apart b c := by
  refine ⟨fun h => hne h.1, fun h => ?_⟩
  have hsmall := h.1.1
  simp only [UInt8.le_iff_toNat_le, UInt8.lt_iff_toNat_lt, UInt8.reduceToNat] at hb hsmall
  omega

theorem isChain_append_iff {s t : Bytes} (hs : ∀ b ∈ s, 0x80 ≤ b ∧ b ≠ 0xC2) :
    (s ++ t).IsChain Apart ↔ t.IsChain Apart := by
  induction s with
  | nil => rfl
  | cons b s ih =>
      obtain ⟨⟨hhigh, hne⟩, hs⟩ := List.forall_mem_cons.mp hs
      rw [List.cons_append, List.isChain_cons, ih hs]
      exact and_iff_right fun c _ => apart_of_high hhigh hne

/-- No digit comes first. -/
def NoDigit (bytes : Bytes) : Prop := ∀ b ∈ bytes.head?, ¬ (0x30 ≤ b ∧ b ≤ 0x39)

theorem eq_C2_of_losesByte {a : UInt8} {rest : Bytes} (h : LosesByte (front a rest).1) :
    a = 0xC2 := by
  have hbytes := bytes_front a rest
  cases hp : (front a rest).1 with
  | invalid bytes =>
      rw [hp] at h
      exact h.elim
  | char c =>
      rw [hp] at h
      rw [hp, Piece.bytes, utf8EncodeChar_of_isWide h] at hbytes
      exact (List.head_eq_of_cons_eq hbytes).symm

/-- The neighbour of a byte that is a character of its own matters if its number leaves room for a
digit. -/
theorem isChain_cons_small {a : UInt8} {rest : Bytes} (ha : a < 0x80) :
    (a :: rest).IsChain Apart ↔ ¬ LosesByte (.char (Char.ofNat a.toNat)) ∧
      (LeavesOpen (.char (Char.ofNat a.toNat)) → NoDigit rest) ∧ rest.IsChain Apart := by
  simp only [UInt8.lt_iff_toNat_lt, UInt8.reduceToNat] at ha
  have hvalue : (Char.ofNat a.toNat).toNat = a.toNat := toNat_ofNat (Or.inl (by omega))
  have hapart : ∀ b, Apart a b ↔
      (LeavesOpen (.char (Char.ofNat a.toNat)) → ¬ (0x30 ≤ b ∧ b ≤ 0x39)) := by
    intro b
    simp only [Apart, LeavesOpen, IsShort, hvalue, ne_eq, ← UInt8.toNat_inj,
      UInt8.lt_iff_toNat_lt, UInt8.le_iff_toNat_le, UInt8.reduceToNat]
    omega
  have hwide : ¬ LosesByte (.char (Char.ofNat a.toNat)) := by
    rw [LosesByte, IsWide, hvalue]
    omega
  rw [List.isChain_cons, and_iff_right hwide]
  refine and_congr_left fun _ => ?_
  simp only [hapart, NoDigit]
  exact ⟨fun h hopen b hb => h b hb hopen, fun h b hb hopen => h hopen b hb⟩

/-- **The neighbours in a byte string are those in its first piece, the one behind it and those in
the rest.** -/
theorem isChain_front (a : UInt8) (rest : Bytes) : (a :: rest).IsChain Apart ↔
    ¬ LosesByte (front a rest).1 ∧ (LeavesOpen (front a rest).1 → NoDigit (front a rest).2) ∧
      (front a rest).2.IsChain Apart := by
  rcases front_cases a rest with ⟨ha, hfront⟩ | ⟨ha, taken, -, hrest, hrange⟩
  · rw [hfront]
    exact isChain_cons_small ha
  · have hopen : ¬ LeavesOpen (front a rest).1 := by
      cases hp : (front a rest).1 with
      | invalid bytes => exact id
      | char c =>
          have hhigh := high_of_front_eq_char ha hp
          exact fun h => absurd h.1 (by omega)
    rw [and_iff_right (fun h => absurd h hopen)]
    -- behind any other byte with the top bit the next one may be anything
    by_cases hC2 : a = 0xC2
    · subst hC2
      rcases front_C2 rest with ⟨hfront, hnext⟩ | ⟨b, tail, rfl, hb, hfront⟩
      · have hapart : ∀ b ∈ rest.head?, Apart 0xC2 b := by
          refine fun b hb => ⟨fun h => hnext b hb ⟨h.2.1, ?_⟩, by simp⟩
          exact UInt8.le_trans (UInt8.le_of_lt h.2.2) (by decide)
        rw [hfront, List.isChain_cons, and_iff_right hapart]
        exact (and_iff_right id).symm
      · rw [hfront, List.isChain_cons_cons]
        have hwide : Apart 0xC2 b ↔ ¬ LosesByte (.char (Char.ofNat b.toNat)) := by
          simp only [UInt8.le_iff_toNat_le, UInt8.reduceToNat] at hb
          rw [LosesByte, IsWide, toNat_ofNat (Or.inl (by omega))]
          simp [Apart, UInt8.le_iff_toNat_le, UInt8.lt_iff_toNat_lt]
        have htail : (b :: tail).IsChain Apart ↔ tail.IsChain Apart := by
          refine isChain_append_iff (s := [b]) (List.forall_mem_singleton.mpr ⟨hb.1, ?_⟩)
          rintro rfl
          exact absurd hb.2 (by decide)
        rw [hwide, htail]
    · have htaken : ∀ b ∈ a :: taken, 0x80 ≤ b ∧ b ≠ 0xC2 := by
        refine List.forall_mem_cons.mpr ⟨⟨ha, hC2⟩, fun b hb => ⟨(hrange b hb).1, ?_⟩⟩
        rintro rfl
        exact absurd (hrange _ hb).2 (by decide)
      have hwide : ¬ LosesByte (front a rest).1 := fun h => hC2 (eq_C2_of_losesByte h)
      conv_lhs => rw [hrest, ← List.cons_append, isChain_append_iff htaken]
      rw [and_iff_right hwide]

theorem startsDigit_front (a : UInt8) (rest : Bytes) :
    StartsDigit (front a rest).1 ↔ 0x30 ≤ a ∧ a ≤ 0x39 := by
  rcases front_cases a rest with ⟨ha, hfront⟩ | ⟨ha, -⟩
  · rw [hfront, StartsDigit, isDigit_iff, toNat_ofNat]
    · rfl
    · simp only [UInt8.lt_iff_toNat_lt, UInt8.reduceToNat] at ha
      exact Or.inl (by omega)
  · refine iff_of_false ?_ ?_
    · cases hp : (front a rest).1 with
      | invalid bytes => exact id
      | char c =>
          have hhigh := high_of_front_eq_char ha hp
          exact fun h => absurd (isDigit_iff.mp h).2 (by omega)
    · simp only [UInt8.le_iff_toNat_le, UInt8.reduceToNat] at ha ⊢
      omega

/-- **What stands between the quotes is read right exactly if no piece of it clashes** with the one
in front of it. -/
theorem yields_body_iff (bytes : Bytes) (hinside : state.Inside) :
    (∃ next, Yields state (body bytes) bytes next) ↔
      (state.IsOpen → NoDigit bytes) ∧ bytes.IsChain Apart := by
  induction bytes using piecesInduction generalizing state with
  | nil =>
      rw [body, pieces_nil]
      exact iff_of_true ⟨state, yields_nil hinside⟩ ⟨fun _ => by simp [NoDigit], List.IsChain.nil⟩
  | cons a rest ih =>
      have hclear : ((state.IsOpen → NoDigit (a :: rest)) ∧ (a :: rest).IsChain Apart) ↔
          ¬ Clash state (front a rest).1 ∧ (LeavesOpen (front a rest).1 → NoDigit (front a rest).2) ∧
            (front a rest).2.IsChain Apart := by
        rw [isChain_front, Clash, startsDigit_front, not_or, not_and, and_assoc]
        simp [NoDigit]
      rw [hclear]
      by_cases hclash : Clash state (front a rest).1
      · obtain ⟨count, hcount, hgives⟩ := gives_piece hinside hclash
        -- a byte is lost here, and what lies behind never gives more than it has
        refine iff_of_false ?_ fun h => h.1 hclash
        rintro ⟨next, hyields⟩
        have hwhole := hgives.append fun next hnext => gives_body (front a rest).2 hnext
        rw [← body_cons] at hwhole
        have hlength := length_front a rest
        exact hwhole.not_yields (by omega) hyields
      · obtain ⟨next, hfirst, hopen⟩ := yields_piece hinside (fun _ => of_front_eq_invalid) hclash
        rw [and_iff_right hclash, ← hopen, ← ih hfirst.1, body_cons, ← bytes_front a rest]
        exact exists_congr fun last => hfirst.append_iff

/-- **The quoted form of a byte string is read back exactly if no two bytes clash.** -/
theorem read_encode_iff (bytes : Bytes) :
    Literal.read (encode bytes) = some bytes ↔ bytes.IsChain Apart := by
  have hencode : encode bytes = '"' :: body bytes ++ ['"'] := rfl
  have hinside : State.text.Inside := trivial
  rw [hencode, read_iff, yields_body_iff bytes hinside]
  exact and_iff_right fun hopen => hopen.elim

end Quoted

/-! ## Constants -/

namespace Constant

open Quoted Utf8

/-- **The quoted form of a string constant, read as Lua reads it, gives the string back exactly if
no two of its bytes clash**, and two strings without a clash are told apart by it. -/
theorem read_display_string (s t : Bytes) :
    (Literal.read (string s).display.toList = some s ↔ s.IsChain Apart) ∧
      (s.IsChain Apart → t.IsChain Apart → ((string s).display = (string t).display ↔ s = t)) := by
  have hread : ∀ u : Bytes,
      Literal.read (string u).display.toList = some u ↔ u.IsChain Apart := by
    intro u
    rw [display, String.toList_ofList, read_encode_iff]
  refine ⟨hread s, fun hs ht => ⟨fun h => ?_, fun h => by rw [h]⟩⟩
  have hreadS := (hread s).mpr hs
  rw [h, (hread t).mpr ht] at hreadS
  exact (Option.some.inj hreadS).symm

/-- A control character before a letter is read back, and so is a byte that encodes no character;
another byte in its place is another text. -/
theorem read_display_string_bell :
    Literal.read (string [0x07, 0x61, 0x85]).display.toList = some [0x07, 0x61, 0x85] ∧
      (string [0x07, 0x61, 0x85]).display ≠ (string [0x07, 0x61, 0x86]).display := by
  have hbell : [0x07, 0x61, 0x85].IsChain Apart := by decide
  have hother : [0x07, 0x61, 0x86].IsChain Apart := by decide
  obtain ⟨hread, htold⟩ := read_display_string [0x07, 0x61, 0x85] [0x07, 0x61, 0x86]
  exact ⟨hread.mpr hbell, fun h => absurd ((htold hbell hother).mp h) (by decide)⟩

/-- The character `U+0085` and the byte of its number are both `"\133"`; a byte of its own before a
digit and the byte of the number they make together are both `"\12"`. -/
theorem display_string_collisions :
    ((string [0xC2, 0x85]).display = (string [0x85]).display ∧ ([0xC2, 0x85] : Bytes) ≠ [0x85]) ∧
      (string [0x01, 0x32]).display = (string [0x0C]).display ∧
        ([0x01, 0x32] : Bytes) ≠ [0x0C] := by
  have hwide : pieces [0xC2, 0x85] = [.char (Char.ofNat 0x85)] := by
    rw [pieces_cons]
    exact congrArg _ pieces_nil
  have hbyte : pieces [0x85] = [.invalid [0x85]] := by
    rw [pieces_cons]
    exact congrArg _ pieces_nil
  have htwo : pieces [0x01, 0x32] = [.char (Char.ofNat 0x01), .char '2'] := by
    rw [pieces_cons]
    refine congrArg _ ((pieces_cons 0x32 []).trans ?_)
    exact congrArg _ pieces_nil
  have hone : pieces [0x0C] = [.char (Char.ofNat 0x0C)] := by
    rw [pieces_cons]
    exact congrArg _ pieces_nil
  refine ⟨⟨?_, by decide⟩, ?_, by decide⟩
  · rw [display, display, Quoted.encode, Quoted.encode, hwide, hbyte]
    rfl
  · rw [display, display, Quoted.encode, Quoted.encode, htwo, hone]
    rfl

end Constant

end LuaBytecode
