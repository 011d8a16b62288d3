import LuaBytecode.Proofs.Front
import LuaBytecode.Proofs.Instruction.Packing
import LuaBytecode.Proofs.Text.Printable
import Mathlib.Data.List.Nodup

/-!
# A listed instruction shows its whole word

What a listing shows of an instruction are columns with blanks between them: a mnemonic and the
operands.  No column has a blank in it, so the columns are found again in the text, and each of them
is written in one way only: a mnemonic belongs to one opcode, a numeral to one number.  Only the
flag has no column of its own; it is glued to the last operand, where it is seen because no numeral
ends in it.  A word without a known opcode is shown by all of its digits.

* `name_inj`, `toNat_of_ofByte` — an opcode is known by its mnemonic, a number by its opcode.
* `operands_of_display` — the operands are read off their columns, mode by mode.
* **`display_inj`** — two instructions are shown alike only if they are the same word.
-/

namespace LuaBytecode

/-! ## Columns -/

/-- A text without blanks. -/
def Column (text : List Char) : Prop := ∀ c ∈ text, (c == ' ') = false

-- named outright, as for `Printable`
instance (text : List Char) : Decidable (Column text) :=
  List.decidableBAll (fun c => (c == ' ') = false) text

theorem column_natText (n : Nat) : Column (toString n).toList := by
  intro c hc
  rw [beq_eq_false_iff_ne]
  rintro rfl
  exact absurd (isDigit_of_mem_natText hc) (by decide)

theorem column_intText (i : Int) : Column (toString i).toList := by
  intro c hc
  rw [beq_eq_false_iff_ne]
  rintro rfl
  rcases of_mem_intText hc with h | h <;> exact absurd h (by decide)

/-- **The first column of a text is found in the text.** -/
theorem column_inj {s t u v : List Char} (hs : Column s) (ht : Column t)
    (h : s ++ ' ' :: u = t ++ ' ' :: v) : s = t ∧ u = v := by
  obtain ⟨hfirst, -, hrest⟩ := append_first_inj hs rfl ht rfl h
  exact ⟨hfirst, hrest⟩

/-- A flag behind a numeral is told from its absence. -/
theorem flagged_inj {m n : Int} {k l : Bool}
    (h : (toString m).toList ++ (if k then "k" else "").toList
      = (toString n).toList ++ (if l then "k" else "").toList) : m = n ∧ k = l := by
  have hnot (i : Int) : 'k' ∉ (toString i).toList := fun hmem => by
    rcases of_mem_intText hmem with hk | hk <;> exact absurd hk (by decide)
  have hflag (i : Int) (k : Bool) :
      'k' ∈ (toString i).toList ++ (if k then "k" else "").toList ↔ k = true := by
    rw [List.mem_append, or_iff_right (hnot i)]
    cases k <;> decide
  have hkl : k = l := Bool.eq_iff_iff.mpr (by rw [← hflag m k, h, hflag n l])
  subst hkl
  exact ⟨intText_inj (List.append_cancel_right h), rfl⟩

/-! ## Opcodes -/

namespace Opcode

theorem mem_all (op : Opcode) : op ∈ all := List.mem_of_getElem? (ofNat?_toNat op)

theorem column_name (op : Opcode) : Column op.name.toList := by
  have hnames : ∀ op ∈ all, Column op.name.toList := by decide +kernel
  exact hnames op op.mem_all

theorem length_name_lt (op : Opcode) : op.name.length < Instruction.mnemonicWidth := by
  have hnames : ∀ op ∈ all, op.name.length < Instruction.mnemonicWidth := by decide +kernel
  exact hnames op op.mem_all

/-- The mnemonics are all different, and different from what stands for an unknown one. -/
theorem nodup_names : ("??" :: all.map name).Nodup := by decide +kernel

theorem name_ne_unknown (op : Opcode) : op.name ≠ "??" := fun h =>
  (List.nodup_cons.mp nodup_names).1 (List.mem_map.mpr ⟨op, op.mem_all, h⟩)

/-- **A mnemonic belongs to one opcode.** -/
theorem name_inj {op op' : Opcode} (h : op.name = op'.name) : op = op' :=
  List.inj_on_of_nodup_map (List.nodup_cons.mp nodup_names).2 op.mem_all op'.mem_all h

theorem toNat_of_ofByte {id : UInt8} {op : Opcode} (h : ofByte id = .ok op) :
    op.toNat = id.toNat := by
  have hnumbers : all.map toNat = List.range 83 := by decide
  unfold ofByte at h
  cases hfound : ofNat? id.toNat with
  | none => rw [hfound] at h; cases h
  | some op' =>
      rw [hfound] at h
      cases h
      have hplace := congrArg (Option.map toNat) hfound
      rw [ofNat?, ← List.getElem?_map, hnumbers, Option.map_some] at hplace
      obtain ⟨_, heq⟩ := List.getElem?_eq_some_iff.mp hplace
      rw [← heq, List.getElem_range]

end Opcode

namespace Instruction

variable {i j : Instruction} {op : Opcode}

/-! ## Operands -/

theorem eq_of_shownB (h : i.shownB op = j.shownB op) : i.b = j.b := by
  refine UInt8.toNat_inj.mp ?_
  unfold shownB at h
  split_ifs at h
  · rw [toInt_sb, toInt_sb] at h
    omega
  · omega

theorem eq_of_shownC (h : i.shownC op = j.shownC op) : i.c = j.c := by
  refine UInt8.toNat_inj.mp ?_
  unfold shownC at h
  split_ifs at h
  · rw [toInt_sc, toInt_sc] at h
    omega
  · omega

/-- **The operands are read off their columns**, whether or not they are shown signed. -/
theorem operands_of_display (h : (i.displayOperands op).toList = (j.displayOperands op).toList) :
    i.operands op.mode = j.operands op.mode := by
  have hblank : " ".toList = [' '] := rfl
  unfold displayOperands at h
  cases hmode : op.mode with
  | abc =>
      simp only [hmode, String.toList_append, toString_text, hblank, List.append_assoc,
        List.singleton_append] at h
      obtain ⟨ha, h⟩ := column_inj (column_natText _) (column_natText _) h
      obtain ⟨hb, h⟩ := column_inj (column_intText _) (column_intText _) h
      obtain ⟨hc, hk⟩ := flagged_inj h
      rw [operands, operands, UInt8.toNat_inj.mp (natText_inj ha), hk,
        eq_of_shownB (intText_inj hb), eq_of_shownC hc]
  | abx =>
      simp only [hmode, String.toList_append, toString_text, hblank, List.append_assoc,
        List.singleton_append] at h
      obtain ⟨ha, h⟩ := column_inj (column_natText _) (column_natText _) h
      rw [operands, operands, UInt8.toNat_inj.mp (natText_inj ha),
        UInt32.toNat_inj.mp (natText_inj h)]
  | asbx =>
      simp only [hmode, String.toList_append, toString_text, hblank, List.append_assoc,
        List.singleton_append] at h
      obtain ⟨ha, h⟩ := column_inj (column_natText _) (column_natText _) h
      rw [operands, operands, UInt8.toNat_inj.mp (natText_inj ha),
        Int32.toInt_inj.mp (intText_inj h)]
  | ax =>
      simp only [hmode] at h
      rw [operands, operands, UInt32.toNat_inj.mp (natText_inj h)]
  | sj =>
      simp only [hmode] at h
      rw [operands, operands, Int32.toInt_inj.mp (intText_inj h)]

/-! ## Words -/

theorem display_of_ok (h : i.opcode = .ok op) :
    i.display.toList = op.name.toList ++
      ' ' :: (List.replicate (mnemonicWidth - op.name.length - 1) ' ' ++
        (i.displayOperands op).toList) := by
  have hroom : mnemonicWidth - op.name.length = mnemonicWidth - op.name.length - 1 + 1 := by
    have hlt := op.length_name_lt
    omega
  unfold display
  rw [h]
  simp only [padRight, String.toList_append, String.toList_ofList]
  rw [hroom, List.replicate_succ]
  simp

theorem display_of_error {fault : Fault} (h : i.opcode = .error fault) :
    i.display.toList = "??".toList ++ ' ' :: ("0x".toList ++ hexadecimal 8 i.word.toNat) := by
  unfold display
  rw [h]
  simp

theorem eq_of_operands {mode : OperandMode} (hid : i.opcodeId = j.opcodeId)
    (hoperands : i.operands mode = j.operands mode) : i = j :=
  eq_of_toNat_eq (by rw [i.toNat_word mode, j.toNat_word mode, hid, hoperands])

/-- **Two instructions are shown alike only if they are the same word**, whatever their opcodes, and
whether or not they have one. -/
theorem display_inj (i j : Instruction) : i.display = j.display ↔ i = j := by
  have hunknown : Column "??".toList := by decide
  refine ⟨fun h => ?_, congrArg display⟩
  have htext := congrArg String.toList h
  cases hi : i.opcode with
  | ok op =>
      cases hj : j.opcode with
      | ok op' =>
          rw [display_of_ok hi, display_of_ok hj] at htext
          obtain ⟨hname, hrest⟩ := column_inj op.column_name op'.column_name htext
          obtain rfl := Opcode.name_inj (String.toList_inj.mp hname)
          have hid : i.opcodeId = j.opcodeId := UInt8.toNat_inj.mp
            ((Opcode.toNat_of_ofByte hi).symm.trans (Opcode.toNat_of_ofByte hj))
          exact eq_of_operands hid (operands_of_display (List.append_cancel_left hrest))
      | error fault =>
          rw [display_of_ok hi, display_of_error hj] at htext
          obtain ⟨hname, -⟩ := column_inj op.column_name hunknown htext
          exact absurd (String.toList_inj.mp hname) op.name_ne_unknown
  | error fault =>
      cases hj : j.opcode with
      | ok op =>
          rw [display_of_error hi, display_of_ok hj] at htext
          obtain ⟨hname, -⟩ := column_inj hunknown op.column_name htext
          exact absurd (String.toList_inj.mp hname.symm) op.name_ne_unknown
      | error fault' =>
          rw [display_of_error hi, display_of_error hj] at htext
          obtain ⟨-, hrest⟩ := column_inj hunknown hunknown htext
          have hdigits := List.append_cancel_left hrest
          exact eq_of_toNat_eq (hexadecimal_inj i.word.toNat_lt j.word.toNat_lt hdigits)

end Instruction

end LuaBytecode
