import LuaBytecode.Instruction.Word
import Mathlib.Tactic.SplitIfs

/-!
# Packing and decoding undo each other

A word is divided by shifts and masks, and signed operands are moved by a bias in 32-bit
arithmetic.  This file says first what all that comes to in unbounded numbers: a field is a quotient
and a remainder of the word, a packed word is the sum of its fields at their places, and a bias is
added or taken away exactly.  The rest is division with remainder, for words of any mode.

* `Operands.InRange` — operands that have room in a word, `Operands.value` — their number there.
* `toNat_pack` — **packing adds**, so no bit of an operand in range is lost or falls on another.
* `toNat_word` — **a word is its opcode and its operands**, whatever the mode.
* `pack_operands`, `operands_pack` — hence the two directions of the bijection.
* **`decode_bijective`** — the same for decoding, which takes the mode from the opcode.
-/

namespace LuaBytecode

namespace Operands

/-- Operands that have room in a word; those of eight bits always do. -/
def InRange : Operands → Prop
  | .abc .. => True
  | .abx _ bx => bx.toNat < 0x20000
  | .asbx _ sbx => -65535 ≤ sbx.toInt ∧ sbx.toInt ≤ 65536
  | .ax n => n.toNat < 0x2000000
  | .sj n => -16777215 ≤ n.toInt ∧ n.toInt ≤ 16777216

instance : DecidablePred InRange
  | .abc .. => inferInstanceAs (Decidable True)
  | .abx _ bx => inferInstanceAs (Decidable (bx.toNat < 0x20000))
  | .asbx _ sbx => inferInstanceAs (Decidable (-65535 ≤ sbx.toInt ∧ sbx.toInt ≤ 65536))
  | .ax n => inferInstanceAs (Decidable (n.toNat < 0x2000000))
  | .sj n => inferInstanceAs (Decidable (-16777215 ≤ n.toInt ∧ n.toInt ≤ 16777216))

/-- The number that operands are in a word: each at its place, and the signed ones with their
bias. -/
def value : Operands → Nat
  | .abc a k b c => a.toNat * 0x80 + k.toNat * 0x8000 + b.toNat * 0x10000 + c.toNat * 0x1000000
  | .abx a bx => a.toNat * 0x80 + bx.toNat * 0x8000
  | .asbx a sbx => a.toNat * 0x80 + (sbx.toInt + 65535).toNat * 0x8000
  | .ax n => n.toNat * 0x80
  | .sj n => (n.toInt + 16777215).toNat * 0x80

/-- The bits under the operands are free for the opcode. -/
theorem value_mod (ops : Operands) : ops.value % 0x80 = 0 := by
  cases ops <;> simp only [value] <;> omega

end Operands

namespace Instruction

/-! ## Words as numbers -/

section Words

variable {x y : UInt32}

/-- A shift that pushes no bit out multiplies. -/
theorem toNat_shiftLeft {m n place : Nat} (hx : x.toNat = m) (hn : n < 32)
    (hplace : 1 <<< n = place) (h : m * place < 0x100000000) :
    (x <<< UInt32.ofNat n).toNat = m * place := by
  have hcount : (UInt32.ofNat n).toNat % 32 = n := by
    rw [UInt32.toNat_ofNat_of_lt' (Nat.lt_trans hn (by decide))]
    exact Nat.mod_eq_of_lt hn
  rw [← hplace, Nat.one_shiftLeft, ← Nat.shiftLeft_eq] at h ⊢
  rw [UInt32.toNat_shiftLeft, hcount, hx]
  exact Nat.mod_eq_of_lt h

/-- Bits above all bits of a word are added to it. -/
theorem toNat_or {m n : Nat} (hx : x.toNat < 1 <<< n) (hy : y.toNat = m * 1 <<< n) :
    (x ||| y).toNat = x.toNat + y.toNat := by
  rw [Nat.one_shiftLeft] at hx hy
  rw [UInt32.toNat_or, hy, ← Nat.shiftLeft_eq, Nat.or_comm, ← Nat.shiftLeft_add_eq_or_of_lt hx,
    Nat.add_comm]

theorem toInt_toInt32 (h : x.toNat < 0x80000000) : x.toInt32.toInt = x.toNat := by
  refine BitVec.toInt_eq_toNat_of_lt ?_
  change 2 * x.toNat < _
  omega

theorem toNat_toUInt32_add {n b : Int32} (hlow : 0 ≤ n.toInt + b.toInt)
    (hhigh : n.toInt + b.toInt < 0x80000000) :
    (n + b).toUInt32.toNat = (n.toInt + b.toInt).toNat := by
  have hsum : (n + b).toInt = n.toInt + b.toInt := by
    rw [Int32.toInt_add]
    exact Int.bmod_eq_of_le (by omega) (by omega)
  have hpos : 0 ≤ n + b := by
    rw [Int32.le_iff_toInt_le, hsum]
    exact hlow
  rw [Int32.toNat_toUInt32_of_le hpos, ← Int32.toNat_toInt, hsum]

theorem toNat_toUInt32_flag (k : Bool) : k.toUInt32.toNat = k.toNat := by
  cases k <;> rfl

theorem eq_of_toNat_flag : ∀ k k' : Bool, k.toNat = k'.toNat → k = k' := by decide

end Words

/-! ## The fields of a word -/

section Fields

variable (i : Instruction)

theorem toNat_opcodeId : i.opcodeId.toNat = i.word.toNat % 0x80 := by
  have hmask : (i.word &&& 0x7F).toNat = i.word.toNat % 0x80 := by
    rw [UInt32.toNat_and]
    exact Nat.and_two_pow_sub_one_eq_mod i.word.toNat 7
  rw [opcodeId, UInt32.toNat_toUInt8, hmask]
  omega

theorem opcodeId_lt : i.opcodeId.toNat < 0x80 := by
  rw [toNat_opcodeId]
  omega

theorem toNat_a : i.a.toNat = i.word.toNat / 0x80 % 0x100 := by
  simp [a, Nat.shiftRight_eq_div_pow]

theorem toNat_k : i.k.toNat = i.word.toNat / 0x8000 % 2 := by
  have hbit : (i.word >>> 15 &&& 1).toNat = i.word.toNat / 0x8000 % 2 := by
    simp [Nat.shiftRight_eq_div_pow]
  rw [k, ← hbit]
  by_cases h : i.word >>> 15 &&& 1 = 0
  · simp [h]
  · have hpos : (i.word >>> 15 &&& 1).toNat ≠ 0 := fun hzero => h (UInt32.toNat_inj.mp hzero)
    rw [decide_eq_true h, Bool.toNat_true]
    omega

theorem toNat_b : i.b.toNat = i.word.toNat / 0x10000 % 0x100 := by
  simp [b, Nat.shiftRight_eq_div_pow]

theorem toNat_c : i.c.toNat = i.word.toNat / 0x1000000 := by
  have hword := i.word.toNat_lt
  have hshift : (i.word >>> 24).toNat = i.word.toNat / 0x1000000 := by
    simp [Nat.shiftRight_eq_div_pow]
  rw [c, UInt32.toNat_toUInt8, hshift]
  omega

theorem toNat_bx : i.bx.toNat = i.word.toNat / 0x8000 := by
  simp [bx, Nat.shiftRight_eq_div_pow]

theorem toNat_ax : i.ax.toNat = i.word.toNat / 0x80 := by
  simp [ax, Nat.shiftRight_eq_div_pow]

/-- A field that is narrower than the word is far enough from its ends for the bias. -/
theorem toInt_sub_bias {x : UInt32} {b : Int32} (hx : x.toNat < 0x40000000)
    (hlow : 0 ≤ b.toInt) (hhigh : b.toInt < 0x40000000) :
    (x.toInt32 - b).toInt = x.toNat - b.toInt := by
  rw [Int32.toInt_sub, toInt_toInt32 (by omega)]
  exact Int.bmod_eq_of_le (by omega) (by omega)

theorem toInt_sb : i.sb.toInt = i.b.toNat - 127 := by
  have hb := i.b.toNat_lt
  have hwide := i.b.toNat_toUInt32
  have hsub := toInt_sub_bias (x := i.b.toUInt32) (b := biasC) (by omega) (by decide) (by decide)
  rw [hwide] at hsub
  exact hsub

theorem toInt_sc : i.sc.toInt = i.c.toNat - 127 := by
  have hc := i.c.toNat_lt
  have hwide := i.c.toNat_toUInt32
  have hsub := toInt_sub_bias (x := i.c.toUInt32) (b := biasC) (by omega) (by decide) (by decide)
  rw [hwide] at hsub
  exact hsub

theorem toInt_sbx : i.sbx.toInt = i.bx.toNat - 65535 := by
  have hword := i.word.toNat_lt
  have hbx := i.toNat_bx
  exact toInt_sub_bias (by omega) (by decide) (by decide)

theorem toInt_sj : i.sj.toInt = i.ax.toNat - 16777215 := by
  have hword := i.word.toNat_lt
  have hax := i.toNat_ax
  exact toInt_sub_bias (by omega) (by decide) (by decide)

/-- The fields of a word, read without shifts, masks and words: nothing wraps on the way. -/
structure ReadExactly : Prop where
  opcodeId : i.opcodeId.toNat = i.word.toNat % 0x80
  a : i.a.toNat = i.word.toNat / 0x80 % 0x100
  k : i.k.toNat = i.word.toNat / 0x8000 % 2
  b : i.b.toNat = i.word.toNat / 0x10000 % 0x100
  c : i.c.toNat = i.word.toNat / 0x1000000
  bx : i.bx.toNat = i.word.toNat / 0x8000
  ax : i.ax.toNat = i.word.toNat / 0x80
  sb : i.sb.toInt = i.b.toNat - 127
  sc : i.sc.toInt = i.c.toNat - 127
  sbx : i.sbx.toInt = i.bx.toNat - 65535
  sj : i.sj.toInt = i.ax.toNat - 16777215

theorem readExactly : i.ReadExactly :=
  ⟨i.toNat_opcodeId, i.toNat_a, i.toNat_k, i.toNat_b, i.toNat_c, i.toNat_bx, i.toNat_ax, i.toInt_sb,
    i.toInt_sc, i.toInt_sbx, i.toInt_sj⟩

end Fields

/-! ## What is packed -/

theorem toNat_packOperands {ops : Operands} (h : ops.InRange) :
    (packOperands ops).toNat = ops.value := by
  have hregister (a : UInt8) : (a.toUInt32 <<< 7).toNat = a.toNat * 0x80 := by
    have ha := a.toNat_lt
    exact toNat_shiftLeft a.toNat_toUInt32 (by decide) rfl (by omega)
  cases ops with
  | abc a k b c =>
      have ha := a.toNat_lt
      have hb := b.toNat_lt
      have hc := c.toNat_lt
      have hk := k.toNat_lt
      have hflag : (k.toUInt32 <<< 15).toNat = k.toNat * 0x8000 :=
        toNat_shiftLeft (toNat_toUInt32_flag k) (by decide) rfl (by omega)
      have hsecond : (b.toUInt32 <<< 16).toNat = b.toNat * 0x10000 :=
        toNat_shiftLeft b.toNat_toUInt32 (by decide) rfl (by omega)
      have hthird : (c.toUInt32 <<< 24).toNat = c.toNat * 0x1000000 :=
        toNat_shiftLeft c.toNat_toUInt32 (by decide) rfl (by omega)
      have hfirst := hregister a
      have hak := toNat_or (n := 15) (x := a.toUInt32 <<< 7) (by omega) hflag
      have hakb := toNat_or (n := 16) (x := a.toUInt32 <<< 7 ||| k.toUInt32 <<< 15) (by omega)
        hsecond
      refine (toNat_or (n := 24) (by omega) hthird).trans ?_
      rw [hakb, hak, hfirst, hflag, hsecond, hthird, Operands.value]
  | abx a bx =>
      have ha := a.toNat_lt
      have hbx : bx.toNat < 0x20000 := h
      have hfirst := hregister a
      have hwide : (bx <<< 15).toNat = bx.toNat * 0x8000 :=
        toNat_shiftLeft rfl (by decide) rfl (by omega)
      refine (toNat_or (n := 15) (by omega) hwide).trans ?_
      rw [hfirst, hwide, Operands.value]
  | asbx a sbx =>
      have ha := a.toNat_lt
      obtain ⟨hlow, hhigh⟩ : -65535 ≤ sbx.toInt ∧ sbx.toInt ≤ 65536 := h
      have hfirst := hregister a
      have hbiased : (sbx + biasBx).toUInt32.toNat = (sbx.toInt + 65535).toNat :=
        toNat_toUInt32_add (b := biasBx) (by change 0 ≤ _ + 65535; omega)
          (by change _ + 65535 < _; omega)
      have hwide : ((sbx + biasBx).toUInt32 <<< 15).toNat = (sbx.toInt + 65535).toNat * 0x8000 :=
        toNat_shiftLeft hbiased (by decide) rfl (by omega)
      refine (toNat_or (n := 15) (by omega) hwide).trans ?_
      rw [hfirst, hwide, Operands.value]
  | ax n =>
      have hn : n.toNat < 0x2000000 := h
      exact toNat_shiftLeft rfl (by decide) rfl (by omega)
  | sj n =>
      obtain ⟨hlow, hhigh⟩ : -16777215 ≤ n.toInt ∧ n.toInt ≤ 16777216 := h
      have hbiased : (n + biasJ).toUInt32.toNat = (n.toInt + 16777215).toNat :=
        toNat_toUInt32_add (b := biasJ) (by change 0 ≤ _ + 16777215; omega)
          (by change _ + 16777215 < _; omega)
      exact toNat_shiftLeft hbiased (by decide) rfl (by omega)

section Pack

variable {id : UInt8} {ops : Operands}

/-- **Packing adds.** -/
theorem toNat_pack (hid : id.toNat < 0x80) (h : ops.InRange) :
    (pack id ops).word.toNat = id.toNat + ops.value := by
  have hlow : (id &&& 0x7F).toUInt32.toNat = id.toNat := by
    rw [UInt8.toNat_toUInt32, UInt8.toNat_and]
    exact (Nat.and_two_pow_sub_one_eq_mod id.toNat 7).trans (Nat.mod_eq_of_lt hid)
  have hhigh : (packOperands ops).toNat = ops.value / 0x80 * 0x80 := by
    have hvalue := ops.value_mod
    rw [toNat_packOperands h]
    omega
  refine (toNat_or (n := 7) (by omega) hhigh).trans ?_
  rw [hlow, toNat_packOperands h]

theorem opcodeId_pack (hid : id.toNat < 0x80) (h : ops.InRange) : (pack id ops).opcodeId = id := by
  have hvalue := ops.value_mod
  refine UInt8.toNat_inj.mp ?_
  rw [toNat_opcodeId, toNat_pack hid h]
  omega

/-- **Reading what has been packed gives the operands back.** -/
theorem operands_pack (hid : id.toNat < 0x80) (h : ops.InRange) :
    (pack id ops).operands ops.mode = ops := by
  have hword := toNat_pack hid h
  generalize pack id ops = i at hword
  cases ops with
  | abc a k b c =>
      have hak := And.intro a.toNat_lt k.toNat_lt
      have hbc := And.intro b.toNat_lt c.toNat_lt
      simp only [Operands.value] at hword
      have ha : i.a = a := UInt8.toNat_inj.mp (by rw [toNat_a, hword]; omega)
      have hk : i.k = k := eq_of_toNat_flag _ _ (by rw [toNat_k, hword]; omega)
      have hb : i.b = b := UInt8.toNat_inj.mp (by rw [toNat_b, hword]; omega)
      have hc : i.c = c := UInt8.toNat_inj.mp (by rw [toNat_c, hword]; omega)
      simp only [Operands.mode, operands, ha, hk, hb, hc]
  | abx a bx =>
      have hlt := a.toNat_lt
      simp only [Operands.value] at hword
      have ha : i.a = a := UInt8.toNat_inj.mp (by rw [toNat_a, hword]; omega)
      have hbx : i.bx = bx := UInt32.toNat_inj.mp (by rw [toNat_bx, hword]; omega)
      simp only [Operands.mode, operands, ha, hbx]
  | asbx a sbx =>
      have hlt := a.toNat_lt
      obtain ⟨hlow, hhigh⟩ : -65535 ≤ sbx.toInt ∧ sbx.toInt ≤ 65536 := h
      simp only [Operands.value] at hword
      have ha : i.a = a := UInt8.toNat_inj.mp (by rw [toNat_a, hword]; omega)
      have hsbx : i.sbx = sbx := Int32.toInt_inj.mp (by rw [toInt_sbx, toNat_bx, hword]; omega)
      simp only [Operands.mode, operands, ha, hsbx]
  | ax n =>
      simp only [Operands.value] at hword
      have hax : i.ax = n := UInt32.toNat_inj.mp (by rw [toNat_ax, hword]; omega)
      simp only [Operands.mode, operands, hax]
  | sj n =>
      obtain ⟨hlow, hhigh⟩ : -16777215 ≤ n.toInt ∧ n.toInt ≤ 16777216 := h
      simp only [Operands.value] at hword
      have hsj : i.sj = n := Int32.toInt_inj.mp (by rw [toInt_sj, toNat_ax, hword]; omega)
      simp only [Operands.mode, operands, hsj]

end Pack

/-! ## What is read -/

section Read

variable (i : Instruction) (mode : OperandMode)

theorem mode_operands : (i.operands mode).mode = mode := by
  cases mode <;> rfl

theorem inRange_operands : (i.operands mode).InRange := by
  have hword := i.word.toNat_lt
  have hbx := i.toNat_bx
  have hax := i.toNat_ax
  cases mode with
  | abc => trivial
  | abx =>
      change i.bx.toNat < 0x20000
      omega
  | asbx =>
      change -65535 ≤ i.sbx.toInt ∧ i.sbx.toInt ≤ 65536
      rw [toInt_sbx]
      omega
  | ax =>
      change i.ax.toNat < 0x2000000
      omega
  | sj =>
      change -16777215 ≤ i.sj.toInt ∧ i.sj.toInt ≤ 16777216
      rw [toInt_sj]
      omega

/-- **A word is its opcode and its operands**, in every mode. -/
theorem toNat_word : i.word.toNat = i.opcodeId.toNat + (i.operands mode).value := by
  have hword := i.word.toNat_lt
  rw [toNat_opcodeId]
  cases mode with
  | abc =>
      simp only [operands, Operands.value, toNat_a, toNat_k, toNat_b, toNat_c]
      omega
  | abx =>
      simp only [operands, Operands.value, toNat_a, toNat_bx]
      omega
  | asbx =>
      simp only [operands, Operands.value, toNat_a, toInt_sbx, toNat_bx]
      omega
  | ax =>
      simp only [operands, Operands.value, toNat_ax]
      omega
  | sj =>
      simp only [operands, Operands.value, toInt_sj, toNat_ax]
      omega

theorem eq_of_toNat_eq {i j : Instruction} (h : i.word.toNat = j.word.toNat) : i = j := by
  obtain ⟨w⟩ := i
  obtain ⟨v⟩ := j
  exact congrArg mk (UInt32.toNat_inj.mp h)

/-- **Packing what has been read gives the word back.** -/
theorem pack_operands : pack i.opcodeId (i.operands mode) = i := by
  refine eq_of_toNat_eq ?_
  rw [toNat_pack i.opcodeId_lt (i.inRange_operands mode), ← i.toNat_word mode]

/-- The word with another number in its low seven bits. -/
def withOpcode (id : UInt8) : Instruction :=
  ⟨(id &&& 0x7F).toUInt32 ||| i.word >>> 7 <<< 7⟩

/-- The bits that stay are the operands, in every mode. -/
theorem withOpcode_eq_pack {id : UInt8} (hid : id.toNat < 0x80) :
    i.withOpcode id = pack id (i.operands mode) := by
  have hax : i.withOpcode id = pack id (i.operands .ax) := rfl
  have hsame := (i.toNat_word .ax).symm.trans (i.toNat_word mode)
  refine eq_of_toNat_eq ?_
  rw [hax, toNat_pack hid (i.inRange_operands .ax), toNat_pack hid (i.inRange_operands mode)]
  omega

end Read

end Instruction

/-! ## Decoding -/

namespace Opcode

theorem length_all : all.length = 83 := rfl

theorem exists_ofByte {id : UInt8} (h : id.toNat < 83) : ∃ op, ofByte id = .ok op := by
  rw [← length_all] at h
  have hfound : ofNat? id.toNat = some all[id.toNat] := List.getElem?_eq_getElem h
  exact ⟨all[id.toNat], by rw [ofByte, hfound]⟩

theorem ofByte_of_le {id : UInt8} (h : 83 ≤ id.toNat) : ofByte id = .error (.unknownOpcode id) := by
  have hnone : ofNat? id.toNat = none := List.getElem?_eq_none (by rw [length_all]; exact h)
  rw [ofByte, hnone]

end Opcode

namespace Instruction

variable {id : UInt8} {op : Opcode}

theorem decodeAs_of_ofByte (i : Instruction) (h : Opcode.ofByte id = .ok op) :
    i.decodeAs id = .ok (i.operands op.mode) := by
  rw [decodeAs, h]
  rfl

theorem decodeAs_of_le (i : Instruction) (h : 83 ≤ id.toNat) :
    i.decodeAs id = .error (.unknownOpcode id) := by
  rw [decodeAs, Opcode.ofByte_of_le h]
  rfl

theorem decode_pack {ops : Operands} (hid : id.toNat < 0x80) (hop : Opcode.ofByte id = .ok op)
    (hmode : ops.mode = op.mode) (h : ops.InRange) : (pack id ops).decode = .ok ops := by
  rw [decode, opcodeId_pack hid h, decodeAs_of_ofByte _ hop, ← hmode, operands_pack hid h]

/-- **Decoding is a bijection for each opcode.**  Every field of a word is read exactly.  A word
with a known opcode decodes to operands of its mode and in range, and packed again they are the
word; any other word is refused with the number it has.  Operands of an opcode's mode and in range
have exactly the sum of their fields as their word, and it decodes to them.  And decoding a word as
an opcode is decoding it with that opcode in its place. -/
theorem decode_bijective :
    (∀ i : Instruction, i.ReadExactly) ∧
    (∀ i : Instruction,
      (i.opcodeId.toNat < 83 → ∃ op ops, Opcode.ofByte i.opcodeId = .ok op ∧ i.decode = .ok ops ∧
        ops.mode = op.mode ∧ ops.InRange ∧ pack i.opcodeId ops = i) ∧
      (83 ≤ i.opcodeId.toNat → i.decode = .error (.unknownOpcode i.opcodeId))) ∧
    (∀ id : UInt8, id.toNat < 83 → ∃ op, Opcode.ofByte id = .ok op ∧
      ∀ ops : Operands, ops.mode = op.mode → ops.InRange →
        (pack id ops).word.toNat = id.toNat + ops.value ∧ (pack id ops).decode = .ok ops) ∧
    (∀ (i : Instruction) (id : UInt8),
      (id.toNat < 83 → i.decodeAs id = (i.withOpcode id).decode) ∧
      (83 ≤ id.toNat → i.decodeAs id = .error (.unknownOpcode id))) := by
  refine ⟨readExactly, fun i => ⟨fun hid => ?_, i.decodeAs_of_le⟩, fun id hid => ?_,
    fun i id => ⟨fun hid => ?_, i.decodeAs_of_le⟩⟩
  · obtain ⟨op, hop⟩ := Opcode.exists_ofByte hid
    exact ⟨op, i.operands op.mode, hop, i.decodeAs_of_ofByte hop, i.mode_operands op.mode,
      i.inRange_operands op.mode, i.pack_operands op.mode⟩
  · obtain ⟨op, hop⟩ := Opcode.exists_ofByte hid
    have hroom : id.toNat < 0x80 := by omega
    exact ⟨op, hop, fun ops hmode h => ⟨toNat_pack hroom h, decode_pack hroom hop hmode h⟩⟩
  · obtain ⟨op, hop⟩ := Opcode.exists_ofByte hid
    have hroom : id.toNat < 0x80 := by omega
    rw [i.decodeAs_of_ofByte hop, i.withOpcode_eq_pack op.mode hroom,
      decode_pack hroom hop (i.mode_operands op.mode) (i.inRange_operands op.mode)]

/-- The ends of the range of a jump, the last word of the last opcode, and the first number that is
no opcode. -/
theorem decode_bijective_ends :
    (pack 56 (.sj (-16777215))).decode = .ok (.sj (-16777215)) ∧
    (pack 56 (.sj 16777216)).decode = .ok (.sj 16777216) ∧
    (∃ ops, decode ⟨0xFFFFFFD2⟩ = .ok ops ∧ pack 82 ops = ⟨0xFFFFFFD2⟩) ∧
    decode ⟨0xFFFFFFD3⟩ = .error (.unknownOpcode 83) := by
  obtain ⟨-, hread, hpack, -⟩ := decode_bijective
  obtain ⟨op, hop, hjump⟩ := hpack 56 (by decide)
  cases hop
  obtain ⟨-, ops, -, hops, -, -, hword⟩ := (hread ⟨0xFFFFFFD2⟩).1 (by decide)
  exact ⟨(hjump _ rfl (by decide)).2, (hjump _ rfl (by decide)).2, ⟨ops, hops, hword⟩,
    (hread ⟨0xFFFFFFD3⟩).2 (by decide)⟩

end Instruction

end LuaBytecode
