import LuaBytecode.Proofs.Front
import LuaBytecode.Proofs.Varint
import Mathlib.Data.List.Induction

/-!
# The forms of a number

A number is read from its shortest form and from that form behind any run of zero groups, and from
nothing else.  The groups of a number are its digits to the base 128, so they are determined by it
up to zeros in front; that the top bit stands on the least significant group alone is what makes
the end of a form visible in the form itself.

* **`number_iff_padded`** — the forms of a number are its shortest form behind zeros.
* `eq_of_encode_append` — shortest forms are told apart, whatever follows them.
* **`unsigned_forms`** — what the reader takes, and that the shortest form is one to one, free of
  prefixes and the only one of its length.
-/

namespace LuaBytecode

namespace Varint

/-! ## Digits -/

theorem value_append_singleton (groups : Bytes) (b : UInt8) :
    value (groups ++ [b]) = value groups * 128 + b.toNat % 128 :=
  valueFrom_append 0 groups [b]

theorem value_replicate_zero_append (k : Nat) (groups : Bytes) :
    value (List.replicate k 0 ++ groups) = value groups := by
  induction k with
  | zero => rfl
  | succ k ih => rw [List.replicate_succ, List.cons_append]; exact ih

/-- **Groups are the digits of their value behind zeros.**  The induction takes the last group off:
it is the last digit, unless there is nothing but zeros. -/
theorem eq_padded_leadingGroups (groups : Bytes) (h : ∀ b ∈ groups, isLast b = false) :
    ∃ k, groups = List.replicate k 0 ++ leadingGroups (value groups) := by
  induction groups using List.reverseRecOn with
  | nil => exact ⟨0, by rw [leadingGroups]; rfl⟩
  | append_singleton groups b ih =>
      obtain ⟨k, hk⟩ := ih fun g hg => h g (List.mem_append_left _ hg)
      have hb : b.toNat < 128 := UInt8.lt_iff_toNat_lt.mp (lt_of_isLast (h b (by simp)))
      rw [value_append_singleton]
      by_cases hzero : value groups * 128 + b.toNat % 128 = 0
      · have hvalue : value groups = 0 := by omega
        have hb₀ : b = 0 := UInt8.toNat_inj.mp (by simp; omega)
        have hnone : leadingGroups 0 = [] := by rw [leadingGroups, if_pos rfl]
        rw [hvalue, hnone, List.append_nil] at hk
        refine ⟨k + 1, ?_⟩
        rw [hzero, hnone, List.append_nil, List.replicate_succ', hk, hb₀]
      · refine ⟨k, ?_⟩
        have hdiv : (value groups * 128 + b.toNat % 128) / 128 = value groups := by omega
        have hmod : (value groups * 128 + b.toNat % 128) % 128 = b.toNat := by omega
        rw [leadingGroups, if_neg hzero, hdiv, hmod, UInt8.ofNat_toNat, ← List.append_assoc, ← hk]

/-! ## Forms -/

/-- **The forms of a number are its shortest form behind zeros.** -/
theorem number_iff_padded {limit n : Nat} (hn : n ≤ limit) (w : Bytes) :
    Grammar.Number limit w n ↔ ∃ k, w = List.replicate k 0 ++ encode n := by
  constructor
  · rintro ⟨groups, last, rfl, hgroups, hlast, rfl, -⟩
    obtain ⟨k, hk⟩ := eq_padded_leadingGroups groups hgroups
    have hlow : 128 ≤ last.toNat := UInt8.le_iff_toNat_le.mp (of_decide_eq_true hlast)
    have hhigh : last.toNat < 256 := last.toNat_lt
    have hdiv : (value groups * 128 + last.toNat % 128) / 128 = value groups := by omega
    have hmod : (value groups * 128 + last.toNat % 128) % 128 + 128 = last.toNat := by omega
    refine ⟨k, ?_⟩
    rw [value_append_singleton, encode, hdiv, hmod, UInt8.ofNat_toNat, ← List.append_assoc, ← hk]
  · rintro ⟨k, rfl⟩
    obtain ⟨groups, last, hencode, hgroups, hlast, hvalue, hlimit⟩ := number_encode hn
    refine ⟨List.replicate k 0 ++ groups, last, ?_, ?_, hlast, ?_, hlimit⟩
    · rw [hencode, List.append_assoc]
    · intro b hb
      rcases List.mem_append.mp hb with hb | hb
      · rw [List.eq_of_mem_replicate hb]
        rfl
      · exact hgroups b hb
    · rw [value_replicate_zero_append, hvalue]

theorem eq_of_encode_append {m n : Nat} {rest rest' : Bytes}
    (h : encode m ++ rest = encode n ++ rest') : m = n ∧ rest = rest' := by
  obtain ⟨groups, last, hm, hgroups, hlast, hvalue, -⟩ := number_encode (Nat.le_refl m)
  obtain ⟨groups', last', hn, hgroups', hlast', hvalue', -⟩ := number_encode (Nat.le_refl n)
  rw [hm, hn, List.append_assoc, List.append_assoc] at h
  obtain ⟨rfl, rfl, hrest⟩ := append_first_inj hgroups hlast hgroups' hlast' h
  exact ⟨by rw [← hvalue, ← hvalue', hm, hn], hrest⟩

/-! ## What the reader takes -/

theorem unsigned_eq_ok_iff (limit n : UInt64) (offset : Nat) (w rest : Bytes) :
    Decoder.unsigned limit ⟨offset, w ++ rest⟩ = .ok n ⟨offset + w.length, rest⟩ ↔
      Grammar.Number limit.toNat w n.toNat := by
  constructor
  · intro h
    obtain ⟨w', rest', hinput, hc, hw⟩ := (accepts_unsigned limit).sound h
    obtain ⟨-, rfl⟩ := Cursor.mk.inj hc
    rwa [List.append_cancel_right hinput]
  · exact fun h => (accepts_unsigned limit).complete h offset rest

/-- **The reader takes a number from its shortest form behind zeros, and from nothing else.**  So
the shortest form is read back whatever follows it, no other form of the number is as short, and
different numbers have different shortest forms, none of which starts another. -/
theorem unsigned_forms {limit n : UInt64} (h : n ≤ limit) (offset : Nat) :
    (∀ w rest, Decoder.unsigned limit ⟨offset, w ++ rest⟩ = .ok n ⟨offset + w.length, rest⟩ ↔
      ∃ k, w = List.replicate k 0 ++ encode n.toNat) ∧
    (∀ rest, Decoder.unsigned limit ⟨offset, encode n.toNat ++ rest⟩
      = .ok n ⟨offset + (encode n.toNat).length, rest⟩) ∧
    (∀ w rest, Decoder.unsigned limit ⟨offset, w ++ rest⟩ = .ok n ⟨offset + w.length, rest⟩ →
      (encode n.toNat).length ≤ w.length ∧
      (w.length = (encode n.toNat).length → w = encode n.toNat)) ∧
    Function.Injective encode ∧
    ∀ m m' : Nat, encode m <+: encode m' → m = m' := by
  have hforms : ∀ w rest,
      Decoder.unsigned limit ⟨offset, w ++ rest⟩ = .ok n ⟨offset + w.length, rest⟩ ↔
        ∃ k, w = List.replicate k 0 ++ encode n.toNat := fun w rest =>
    (unsigned_eq_ok_iff limit n offset w rest).trans
      (number_iff_padded (UInt64.le_iff_toNat_le.mp h) w)
  refine ⟨hforms, fun rest => (hforms _ rest).mpr ⟨0, rfl⟩, ?_, ?_, ?_⟩
  · intro w rest hw
    obtain ⟨k, rfl⟩ := (hforms w rest).mp hw
    rw [List.length_append, List.length_replicate]
    refine ⟨Nat.le_add_left _ k, fun hlength => ?_⟩
    obtain rfl : k = 0 := by omega
    rfl
  · intro m m' heq
    exact (eq_of_encode_append (congrArg (· ++ []) heq)).1
  · rintro m m' ⟨rest, heq⟩
    exact (eq_of_encode_append (heq.trans (List.append_nil _).symm)).1

/-- The number 300 under a limit of 32 bits, from its shortest form behind two zeros. -/
theorem unsigned_forms_padded300 :
    (300 : UInt64) ≤ 0xFFFFFFFF ∧
    Decoder.unsigned 0xFFFFFFFF ⟨5, [0x00, 0x00, 0x02, 0xAC] ++ [0x11]⟩
      = .ok 300 ⟨9, [0x11]⟩ := by
  have hle : (300 : UInt64) ≤ 0xFFFFFFFF := by decide
  refine ⟨hle, ((unsigned_forms hle 5).1 [0x00, 0x00, 0x02, 0xAC] [0x11]).mpr ⟨2, ?_⟩⟩
  simp [encode, leadingGroups]

end Varint

end LuaBytecode
