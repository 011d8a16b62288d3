import LuaBytecode.Fault
import LuaBytecode.Number.Layout
import Mathlib.Data.List.Basic
import Mathlib.Data.Nat.Digits.Defs
import Mathlib.Tactic.SplitIfs

/-!
# Numerals

Numbers in texts: which characters they are written with, and that no two whole numbers are written
the same.

* `isDigit_of_mem_natText`, `of_mem_intText` — a numeral has digits, and a sign if it has one.
* `Layout.forall_mem_writeFinite` — with a point or an exponent it has their marks as well.
* `natText_inj`, `intText_inj`, `hexadecimal_inj` — a numeral is read in one way only.
-/

namespace LuaBytecode

theorem toString_text (s : String) : toString s = s := rfl

theorem isDigit_iff {c : Char} : c.isDigit ↔ 0x30 ≤ c.toNat ∧ c.toNat ≤ 0x39 := by
  simp [Char.isDigit, UInt32.le_iff_toNat_le]

theorem ne_of_isDigit {c d : Char} (hc : c.isDigit) (hd : ¬ d.isDigit) : c ≠ d := by
  rintro rfl
  exact hd hc

theorem toList_natText (n : Nat) : (toString n).toList = Nat.toDigits 10 n := Nat.toList_repr

theorem toList_negSuccText (n : Nat) :
    (toString (Int.negSucc n)).toList = '-' :: (toString (n + 1)).toList := by
  change ("-" ++ toString (n + 1)).toList = _
  rw [String.toList_append]
  rfl

theorem isDigit_of_mem_natText {n : Nat} {c : Char} (h : c ∈ (toString n).toList) :
    c.isDigit = true := by
  rw [toList_natText] at h
  exact Nat.isDigit_of_mem_toDigits (by decide) (by decide) h

theorem of_mem_intText {i : Int} {c : Char} (h : c ∈ (toString i).toList) :
    c.isDigit = true ∨ c = '-' := by
  cases i with
  | ofNat n => exact Or.inl (isDigit_of_mem_natText h)
  | negSucc n =>
      rw [toList_negSuccText, List.mem_cons] at h
      exact h.symm.imp_left isDigit_of_mem_natText

/-! ## Numbers with a point or an exponent

Whatever holds of digits and of the marks of a number holds of all characters that a layout writes.
-/

namespace Layout

section Characters

variable {P : Char → Prop} (hdigit : ∀ c : Char, c.isDigit → P c)
include hdigit

theorem forall_mem_digitsOf (n : Nat) : ∀ c ∈ digitsOf n, P c := fun c hc =>
  hdigit c (Nat.isDigit_of_mem_toDigits (by decide) (by decide) hc)

theorem forall_mem_zeros (n : Nat) : ∀ c ∈ zeros n, P c := by
  intro c hc
  rw [List.eq_of_mem_replicate hc]
  exact hdigit '0' (by decide)

variable (hmark : ∀ c ∈ ['.', 'e', '+', '-'], P c)
include hmark

theorem forall_mem_plain {digits : List Char} (h : ∀ c ∈ digits, P c) (exponent : Int) :
    ∀ c ∈ plain digits exponent, P c := by
  have hzero : P '0' := hdigit '0' (by decide)
  have hpoint : P '.' := hmark '.' (by decide)
  have hzeros := forall_mem_zeros hdigit
  by_cases hneg : exponent < 0
  · rw [plain, if_pos hneg]
    simp only [List.cons_append, List.forall_mem_cons, List.forall_mem_append]
    exact ⟨hzero, hpoint, hzeros _, h⟩
  · rw [plain, if_neg hneg]
    dsimp only
    split_ifs
    · simp only [List.forall_mem_append, List.forall_mem_cons]
      exact ⟨⟨h, hzeros _⟩, hpoint, hzero, List.forall_mem_nil _⟩
    · simp only [List.forall_mem_append, List.forall_mem_cons]
      exact ⟨fun c hc => h c (List.mem_of_mem_take hc), hpoint,
        fun c hc => h c (List.mem_of_mem_drop hc)⟩

variable (layout : Layout)

theorem forall_mem_scientific {digits : List Char} (h : ∀ c ∈ digits, P c) (exponent : Int) :
    ∀ c ∈ layout.scientific digits exponent, P c := by
  have hsign : ∀ c ∈ (if exponent < 0 then ['-'] else if layout.plusSign then ['+'] else []), P c := by
    split_ifs
    · exact List.forall_mem_singleton.mpr (hmark '-' (by decide))
    · exact List.forall_mem_singleton.mpr (hmark '+' (by decide))
    · exact List.forall_mem_nil _
  simp only [scientific, List.forall_mem_append, List.forall_mem_cons]
  refine ⟨⟨⟨?_, hmark 'e' (by decide), hsign⟩, forall_mem_zeros hdigit _⟩,
    forall_mem_digitsOf hdigit _⟩
  rcases digits with _ | ⟨d, _ | ⟨e, rest⟩⟩
  · exact h
  · exact h
  · rw [List.forall_mem_cons] at h ⊢
    exact ⟨h.1, List.forall_mem_cons.mpr ⟨hmark '.' (by decide), h.2⟩⟩

theorem forall_mem_write (d : Decimal) : ∀ c ∈ layout.write d, P c := by
  have hdigits := forall_mem_digitsOf hdigit d.digits
  unfold write
  split_ifs
  · exact forall_mem_plain hdigit hmark hdigits _
  · exact forall_mem_scientific hdigit hmark layout hdigits _

/-- **A number is written with digits, a point, the letter of an exponent and signs.** -/
theorem forall_mem_writeFinite (pick : Binary64 → Decimal) (x : Binary64) :
    ∀ c ∈ layout.writeFinite pick x, P c := by
  have hzero : P '0' := hdigit '0' (by decide)
  have hsize : ∀ c ∈ (if x.magnitude = 0 then ['0', '.', '0'] else layout.write (pick x)), P c := by
    split_ifs
    · simp only [List.forall_mem_cons]
      exact ⟨hzero, hmark '.' (by decide), hzero, List.forall_mem_nil _⟩
    · exact forall_mem_write hdigit hmark layout _
  by_cases hneg : x.isNegative
  · rw [writeFinite, if_pos hneg]
    exact List.forall_mem_cons.mpr ⟨hmark '-' (by decide), hsize⟩
  · rw [writeFinite, if_neg hneg]
    exact hsize

end Characters

end Layout

/-! ## Numbers told apart -/

theorem natText_inj {m n : Nat} (h : (toString m).toList = (toString n).toList) : m = n := by
  rw [toList_natText, toList_natText] at h
  have hread := congrArg (Nat.ofDigitChars 10 · 0) h
  simpa using hread

/-- A numeral with a sign is none without. -/
theorem natText_ne_negSuccText (m n : Nat) :
    (toString m).toList ≠ (toString (Int.negSucc n)).toList := by
  intro h
  have hsign : '-' ∈ (toString m).toList := by rw [h, toList_negSuccText]; simp
  exact absurd (isDigit_of_mem_natText hsign) (by decide)

theorem intText_inj {i j : Int} (h : (toString i).toList = (toString j).toList) : i = j := by
  cases i with
  | ofNat m =>
      cases j with
      | ofNat n => exact congrArg Int.ofNat (natText_inj h)
      | negSucc n => exact absurd h (natText_ne_negSuccText m n)
  | negSucc m =>
      cases j with
      | ofNat n => exact absurd h.symm (natText_ne_negSuccText n m)
      | negSucc n =>
          rw [toList_negSuccText, toList_negSuccText] at h
          have hsize := natText_inj (List.cons.inj h).2
          rw [Nat.succ.inj hsize]

theorem hexDigit_inj {m n : Nat} (h : hexDigit m = hexDigit n) : m % 16 = n % 16 := by
  have hdigits : ∀ a < 16, ∀ b < 16, Nat.digitChar a = Nat.digitChar b → a = b := by decide
  exact hdigits _ (Nat.mod_lt m (by decide)) _ (Nat.mod_lt n (by decide)) h

/-- As many hexadecimal digits as a number has leave nothing of it out. -/
theorem hexadecimal_inj {width m n : Nat} (hm : m < 16 ^ width) (hn : n < 16 ^ width)
    (h : hexadecimal width m = hexadecimal width n) : m = n := by
  induction width generalizing m n with
  | zero => omega
  | succ width ih =>
      rw [hexadecimal, hexadecimal] at h
      obtain ⟨hfront, hlast⟩ := List.append_inj' h rfl
      have hquotient : m / 16 = n / 16 := by
        refine ih ?_ ?_ hfront
        · exact Nat.div_lt_of_lt_mul (by rwa [Nat.mul_comm, ← Nat.pow_succ])
        · exact Nat.div_lt_of_lt_mul (by rwa [Nat.mul_comm, ← Nat.pow_succ])
      have hremainder := hexDigit_inj (List.head_eq_of_cons_eq hlast)
      omega

end LuaBytecode
