import LuaBytecode.Proofs.Varint
import Mathlib.Order.Bounds.Defs

/-!
# Where reading a number stops

Two things end the reading of a number: a group with the top bit, and a group that makes the number
too large.  Each has a first place in the input where it happens, if any, and the two places decide
everything: which of them comes first, what is read, and how far.  The places are told from the
bytes alone, with numbers that have no bound, so the reader's word is nowhere in the statement.

* **`scan_passes`** — groups that neither end the number nor make it too large are passed, and the
  word holds what they stand for.
* `scanWatched_eq` — no shift drops a set bit: a loop that stops where one would is the same loop.
* **`unsigned_exact`** — the first end and the first excess decide the outcome.
-/

namespace LuaBytecode

namespace Varint

/-! ## The two places -/

/-- A group with the top bit stands at place `i`. -/
def EndsAt (bytes : Bytes) (i : Nat) : Prop := ∃ h : i < bytes.length, isLast bytes[i] = true

/-- The groups up to the one at place `i` stand for more than `limit`. -/
def ExceedsAt (limit : Nat) (bytes : Bytes) (i : Nat) : Prop :=
  i < bytes.length ∧ limit < value (bytes.take (i + 1))

instance (bytes : Bytes) (i : Nat) : Decidable (EndsAt bytes i) :=
  inferInstanceAs (Decidable (∃ h : i < bytes.length, isLast bytes[i] = true))

instance (limit : Nat) (bytes : Bytes) (i : Nat) : Decidable (ExceedsAt limit bytes i) :=
  inferInstanceAs (Decidable (_ ∧ _))

section Places

variable {bytes : Bytes} {limit n : Nat}

/-- In front of the first end all groups go on. -/
theorem isLast_of_mem_take (h : ∀ i < n, ¬EndsAt bytes i) :
    ∀ b ∈ bytes.take n, isLast b = false := by
  intro b hb
  obtain ⟨i, hi, rfl⟩ := List.mem_take_iff_getElem.mp hb
  rw [Bool.eq_false_iff]
  exact fun hlast => h i (by omega) ⟨by omega, hlast⟩

/-- In front of the first excess the groups are within the limit; no groups at all are, too. -/
theorem value_take_le (hn : n ≤ bytes.length) (h : ∀ i < n, ¬ExceedsAt limit bytes i) :
    value (bytes.take n) ≤ limit := by
  cases n with
  | zero => exact Nat.zero_le limit
  | succ n =>
      have hexceeds := h n n.lt_succ_self
      unfold ExceedsAt at hexceeds
      omega

theorem value_take_succ {i : Nat} (h : i < bytes.length) :
    value (bytes.take (i + 1)) = value (bytes.take i) * 128 + bytes[i].toNat % 128 := by
  rw [List.take_add_one, List.getElem?_eq_getElem h, Option.toList_some]
  exact valueFrom_append 0 (bytes.take i) [bytes[i]]

end Places

/-! ## The reader comes to the first of them -/

/-- **Groups that neither end the number nor make it too large are passed**, and the word holds what
they stand for.  The value only grows from group to group, so a bound on all of them is a bound on
each front of them. -/
theorem scan_passes (limit : UInt64) (start : Nat) (rest groups : Bytes) :
    ∀ (acc : UInt64) (offset : Nat), (∀ b ∈ groups, isLast b = false) →
      valueFrom acc.toNat groups ≤ limit.toNat →
      ∃ word : UInt64, word.toNat = valueFrom acc.toNat groups ∧
        scan limit start acc offset (groups ++ rest)
          = scan limit start word (offset + groups.length) rest := by
  induction groups with
  | nil => exact fun acc _ _ _ => ⟨acc, rfl, rfl⟩
  | cons b groups ih =>
      intro acc offset hgroups hlimit
      obtain ⟨hb, hgroups⟩ := List.forall_mem_cons.mp hgroups
      rw [valueFrom_cons] at hlimit
      have hle : acc.toNat * 128 + b.toNat % 128 ≤ limit.toNat :=
        Nat.le_trans (le_valueFrom groups _) hlimit
      rw [← toNat_push_of_le hle] at hlimit
      obtain ⟨word, hword, hscan⟩ := ih (push acc b) (offset + 1) hgroups hlimit
      refine ⟨word, ?_, ?_⟩
      · rw [hword, valueFrom_cons, toNat_push_of_le hle]
      · rw [List.cons_append, scan_of_not_last hle hb, hscan, List.length_cons, Nat.add_assoc offset,
          Nat.add_comm 1]

theorem unsigned_passes {limit : UInt64} {c : Cursor} {n : Nat} (hn : n ≤ c.rest.length)
    (hends : ∀ i < n, ¬EndsAt c.rest i) (hexceeds : ∀ i < n, ¬ExceedsAt limit.toNat c.rest i) :
    ∃ word : UInt64, word.toNat = value (c.rest.take n) ∧
      Decoder.unsigned limit c = scan limit c.offset word (c.offset + n) (c.rest.drop n) := by
  obtain ⟨word, hword, hscan⟩ := scan_passes limit c.offset (c.rest.drop n) (c.rest.take n) 0
    c.offset (isLast_of_mem_take hends) (value_take_le hn hexceeds)
  refine ⟨word, hword, ?_⟩
  rw [List.take_append_drop, List.length_take, Nat.min_eq_left hn] at hscan
  exact hscan

/-! ## The shift, watched -/

/-- Room for a group behind a word, if the shift drops no bit that is set. -/
def room? (acc : UInt64) : Option UInt64 :=
  if acc <<< 7 >>> 7 = acc then some (acc <<< 7) else none

/-- `scan` with its shift watched: it gives nothing at all once a shift drops a set bit. -/
def scanWatched (limit : UInt64) (start : Nat) :
    (acc : UInt64) → (offset : Nat) → Bytes → Option (EStateM.Result Fault Cursor UInt64)
  | _, offset, [] => some (.error (.malformedVarint start) ⟨offset, []⟩)
  | acc, offset, b :: rest =>
      if limit >>> 7 < acc then
        some (.error (.integerOverflow start limit.toNat) ⟨offset + 1, rest⟩)
      else do
        let acc := (← room? acc) ||| (b &&& 0x7F).toUInt64
        if limit < acc then
          some (.error (.integerOverflow start limit.toNat) ⟨offset + 1, rest⟩)
        else if isLast b then
          some (.ok acc ⟨offset + 1, rest⟩)
        else
          scanWatched limit start acc (offset + 1) rest

theorem room?_eq {limit acc : UInt64} (h : ¬limit >>> 7 < acc) : room? acc = some (acc <<< 7) := by
  refine if_pos (UInt64.toNat_inj.mp ?_)
  rw [UInt64.toNat_shiftRight, toNat_shift h]
  simp only [UInt64.reduceToNat, Nat.reduceMod, Nat.shiftRight_eq_div_pow]
  omega

/-- **No shift of the loop drops a set bit.** -/
theorem scanWatched_eq (limit : UInt64) (start : Nat) (bytes : Bytes) :
    ∀ (acc : UInt64) (offset : Nat),
      scanWatched limit start acc offset bytes = some (scan limit start acc offset bytes) := by
  induction bytes with
  | nil => exact fun _ _ => rfl
  | cons b rest ih =>
      intro acc offset
      rw [scanWatched, scan]
      by_cases h : limit >>> 7 < acc
      · rw [if_pos h, if_pos h]
      · rw [if_neg h, if_neg h, room?_eq h]
        change (if limit < push acc b then _ else if isLast b then _ else
          scanWatched limit start (push acc b) (offset + 1) rest) = _
        rw [ih]
        split_ifs <;> rfl

/-! ## The outcome -/

/-- **The first excess and the first end decide the outcome.**  If the groups exceed the limit no
later than they end, the number is refused behind the group that made it too large.  If they end
before they exceed it, what is read is exactly the value of the groups up to the end.  If they do
neither, the number is unfinished and all of the input has been passed. -/
theorem unsigned_exact (limit : UInt64) (c : Cursor) :
    (∀ v, IsLeast {i | ExceedsAt limit.toNat c.rest i} v → (∀ t, EndsAt c.rest t → v ≤ t) →
      Decoder.unsigned limit c
        = .error (.integerOverflow c.offset limit.toNat) ⟨c.offset + v + 1, c.rest.drop (v + 1)⟩) ∧
    (∀ t, IsLeast {i | EndsAt c.rest i} t → (∀ v, ExceedsAt limit.toNat c.rest v → t < v) →
      ∃ n : UInt64, n.toNat = value (c.rest.take (t + 1)) ∧
        Decoder.unsigned limit c = .ok n ⟨c.offset + t + 1, c.rest.drop (t + 1)⟩) ∧
    ((∀ t, ¬EndsAt c.rest t) → (∀ v, ¬ExceedsAt limit.toNat c.rest v) →
      Decoder.unsigned limit c
        = .error (.malformedVarint c.offset) ⟨c.offset + c.rest.length, []⟩) ∧
    scanWatched limit c.offset 0 c.offset c.rest = some (Decoder.unsigned limit c) := by
  refine ⟨?_, ?_, ?_, scanWatched_eq limit c.offset c.rest 0 c.offset⟩
  · intro v hv hends
    obtain ⟨hlt, hexceeds⟩ : ExceedsAt limit.toNat c.rest v := hv.1
    obtain ⟨word, hword, hscan⟩ := unsigned_passes (Nat.le_of_lt hlt)
      (fun i hi h => absurd (hends i h) (Nat.not_le.mpr hi))
      (fun i hi h => absurd (hv.2 h) (Nat.not_le.mpr hi))
    rw [value_take_succ hlt, ← hword] at hexceeds
    rw [hscan, List.drop_eq_getElem_cons hlt, scan_of_lt hexceeds]
  · intro t ht hexceeds
    obtain ⟨hlt, hlast⟩ : EndsAt c.rest t := ht.1
    obtain ⟨word, hword, hscan⟩ := unsigned_passes (Nat.le_of_lt hlt)
      (fun i hi h => absurd (ht.2 h) (Nat.not_le.mpr hi))
      (fun i hi h => absurd (hexceeds i h) (Nat.lt_asymm hi))
    have hle : word.toNat * 128 + c.rest[t].toNat % 128 ≤ limit.toNat := by
      rw [hword, ← value_take_succ hlt]
      exact Nat.not_lt.mp fun h => absurd (hexceeds t ⟨hlt, h⟩) (Nat.lt_irrefl t)
    refine ⟨push word c.rest[t], ?_, ?_⟩
    · rw [toNat_push_of_le hle, hword, value_take_succ hlt]
    · rw [hscan, List.drop_eq_getElem_cons hlt, scan_of_last hle hlast]
  · intro hends hexceeds
    obtain ⟨word, -, hscan⟩ := unsigned_passes (Nat.le_refl c.rest.length)
      (fun i _ => hends i) (fun i _ => hexceeds i)
    rw [hscan, List.drop_length, scan]

/-- Under the limit 300, after a group of zeros: 301 is refused at its last group, 300 is read up to
the byte behind it, and what ends inside a number is unfinished. -/
theorem unsigned_exact_around300 :
    Decoder.unsigned 300 ⟨7, [0x00, 0x02, 0xAD]⟩ = .error (.integerOverflow 7 300) ⟨10, []⟩ ∧
    (∃ n : UInt64, n.toNat = 300 ∧
      Decoder.unsigned 300 ⟨7, [0x00, 0x02, 0xAC, 0x11]⟩ = .ok n ⟨10, [0x11]⟩) ∧
    Decoder.unsigned 300 ⟨7, [0x00, 0x02]⟩ = .error (.malformedVarint 7) ⟨9, []⟩ := by
  have hexcess := (unsigned_exact 300 ⟨7, [0x00, 0x02, 0xAD]⟩).1 2
  have hend := (unsigned_exact 300 ⟨7, [0x00, 0x02, 0xAC, 0x11]⟩).2.1 2
  have hneither := (unsigned_exact 300 ⟨7, [0x00, 0x02]⟩).2.2.1
  -- in front of the place that decides there is no end and no excess
  have hfrom : ∀ {P : Nat → Prop} {n : Nat}, (∀ i < n, ¬P i) → ∀ i, P i → n ≤ i :=
    fun h i hi => Nat.not_lt.mp fun hlt => h i hlt hi
  refine ⟨hexcess ⟨?_, fun i => hfrom ?_ i⟩ (hfrom ?_), hend ⟨?_, fun i => hfrom ?_ i⟩ (hfrom ?_),
    hneither ?_ ?_⟩
  · exact (by decide : ExceedsAt 300 [0x00, 0x02, 0xAD] 2)
  · exact (by decide : ∀ i < 2, ¬ExceedsAt 300 [0x00, 0x02, 0xAD] i)
  · exact (by decide : ∀ i < 2, ¬EndsAt [0x00, 0x02, 0xAD] i)
  · exact (by decide : EndsAt [0x00, 0x02, 0xAC, 0x11] 2)
  · exact (by decide : ∀ i < 2, ¬EndsAt [0x00, 0x02, 0xAC, 0x11] i)
  · exact (by decide : ∀ i < 3, ¬ExceedsAt 300 [0x00, 0x02, 0xAC, 0x11] i)
  · exact fun i h => (by decide : ∀ i < 2, ¬EndsAt [0x00, 0x02] i) i h.1 h
  · exact fun i h => (by decide : ∀ i < 2, ¬ExceedsAt 300 [0x00, 0x02] i) i h.1 h

end Varint

end LuaBytecode
