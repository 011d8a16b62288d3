import LuaBytecode.Instruction.Display
import LuaBytecode.Instruction.Reference
import LuaBytecode.Listing.Note

/-!
# The layout of an opcode is that of its meaning

The table of opcodes says how each divides the word, the listing knows which immediates are signed,
and the notes know which operands are places in a table.  All three are read off the meanings of the
opcodes.  `Opcode.named` is what a meaning names, letter by letter; the three are compared with it.

* `mem_operands_of_named` — an opcode has room for the operands that its meaning names.
* **`mode_eq`** — the wide operand among them makes the mode.
* **`hasSignedB_iff`**, **`hasSignedC_iff`** — an immediate is shown signed if the meaning says so.
* **`references_congr`**, **`ofInstruction_congr`** — nothing else in the word matters to what an
  instruction refers to and to its note.
-/

namespace LuaBytecode

/-- A part of an instruction word, as a number or as a flag. -/
inductive Operand where
  | a
  | b
  | sb
  | c
  | sc
  | k
  | bx
  | sbx
  | ax
  | sj
  deriving DecidableEq, Repr

/-- The operands that a mode has room for; two of those of eight bits can be read as signed. -/
def OperandMode.operands : OperandMode → List Operand
  | .abc => [.a, .b, .sb, .c, .sc, .k]
  | .abx => [.a, .bx]
  | .asbx => [.a, .sbx]
  | .ax => [.ax]
  | .sj => [.sj]

namespace Opcode

/-- The operands that the meaning of an opcode names; `RK(C)` names the flag as well. -/
def named : Opcode → List Operand
  | .loadI | .loadF => [.a, .sbx]
  | .loadK | .genericForPrep | .genericForLoop | .closure => [.a, .bx]
  | .forLoop | .forPrep => [.bx]
  | .jump => [.sj]
  | .extraArg => [.ax]
  | .ret0 | .varArgPrep => []
  | .loadKX | .loadFalse | .loadFalseSkip | .loadTrue | .newTable | .close | .markClosed => [.a]
  | .ret1 => [.a]
  | .move | .loadNil | .getUpvalue | .setUpvalue | .negate | .bitNot | .not | .length => [.a, .b]
  | .concat | .tailCall | .ret => [.a, .b]
  | .genericForCall | .varArg => [.a, .c]
  | .setTabUp | .setTable | .setI | .setField | .self => [.a, .b, .c, .k]
  | .addI | .shiftRightI | .shiftLeftI => [.a, .b, .sc]
  | .metaBinaryI => [.a, .sb, .c]
  | .eq | .lt | .le | .eqK | .testSet => [.a, .b, .k]
  | .eqI | .ltI | .leI | .gtI | .geI => [.a, .sb, .k]
  | .test => [.a, .k]
  | .getTabUp | .getTable | .getI | .getField | .call | .setList => [.a, .b, .c]
  | .addK | .subK | .mulK | .modK | .powK | .divK | .floorDivK => [.a, .b, .c]
  | .bitAndK | .bitOrK | .bitXorK | .metaBinary | .metaBinaryK => [.a, .b, .c]
  | .add | .sub | .mul | .mod | .pow | .div | .floorDiv => [.a, .b, .c]
  | .bitAnd | .bitOr | .bitXor | .shiftLeft | .shiftRight => [.a, .b, .c]

theorem mem_operands_of_named {op : Opcode} {o : Operand} (h : o ∈ op.named) :
    o ∈ op.mode.operands := by
  revert o
  cases op <;> decide

/-- **The mode is that of the wide operand that is named.**  One meaning names a place that is not
in the word at all, but in the one behind it; that opcode has a wide operand it does not use. -/
theorem mode_eq (op : Opcode) :
    op.mode =
      if op = .loadKX ∨ .bx ∈ op.named then .abx
      else if .sbx ∈ op.named then .asbx
      else if .ax ∈ op.named then .ax
      else if .sj ∈ op.named then .sj
      else .abc := by
  cases op <;> rfl

/-- **The second operand is shown signed if the meaning names it so.** -/
theorem hasSignedB_iff (op : Opcode) : op.hasSignedB = true ↔ .sb ∈ op.named := by
  cases op <;> decide

/-- **The third operand is shown signed if the meaning names it so.** -/
theorem hasSignedC_iff (op : Opcode) : op.hasSignedC = true ↔ .sc ∈ op.named := by
  cases op <;> decide

end Opcode

namespace Instruction

/-- Two instructions have the same in an operand. -/
def SameAt (i j : Instruction) : Operand → Prop
  | .a => i.a = j.a
  | .b => i.b = j.b
  | .sb => i.sb = j.sb
  | .c => i.c = j.c
  | .sc => i.sc = j.sc
  | .k => i.k = j.k
  | .bx => i.bx = j.bx
  | .sbx => i.sbx = j.sbx
  | .ax => i.ax = j.ax
  | .sj => i.sj = j.sj

variable {i j : Instruction} {op : Opcode}

/-- **An instruction refers to nothing but what the operands say that its meaning names.** -/
theorem references_congr (h : ∀ o ∈ op.named, i.SameAt j o) :
    i.references op = j.references op := by
  cases op <;> simp only [Opcode.named, List.forall_mem_cons, SameAt] at h <;>
    simp only [references, constantOfC, h]

/-- **Nor does its note.** -/
theorem ofInstruction_congr (pc : Nat) (h : ∀ o ∈ op.named, i.SameAt j o) :
    NoteItem.ofInstruction pc i op = NoteItem.ofInstruction pc j op := by
  cases op <;> simp only [Opcode.named, List.forall_mem_cons, SameAt] at h <;>
    simp only [NoteItem.ofInstruction, NoteItem.flaggedConstant, h]

end Instruction

end LuaBytecode
