import LuaBytecode.Instruction.Word

/-!
# Instructions in a listing

The mnemonic, padded to a column, and the operands in the order of their letters.  An operand that
its opcode takes as a signed immediate is shown signed, and the flag is a `k` behind the last
operand.  A word without a known opcode is shown as it is.
-/

namespace LuaBytecode

/-- A text filled up with blanks to a width. -/
def padRight (width : Nat) (text : String) : String :=
  text ++ String.ofList (List.replicate (width - text.length) ' ')

namespace Opcode

/-- The opcodes whose third operand is a signed immediate. -/
def hasSignedC : Opcode → Bool
  | .addI | .shiftRightI | .shiftLeftI => true
  | _ => false

/-- The opcodes whose second operand is a signed immediate. -/
def hasSignedB : Opcode → Bool
  | .eqI | .ltI | .leI | .gtI | .geI | .metaBinaryI => true
  | _ => false

end Opcode

namespace Instruction

/-- How wide the column of mnemonics is. -/
def mnemonicWidth : Nat := 12

/-- The second operand as the opcode takes it. -/
def shownB (i : Instruction) (op : Opcode) : Int :=
  if op.hasSignedB then i.sb.toInt else i.b.toNat

/-- The third operand as the opcode takes it. -/
def shownC (i : Instruction) (op : Opcode) : Int :=
  if op.hasSignedC then i.sc.toInt else i.c.toNat

/-- The operands as the opcode takes them. -/
def displayOperands (i : Instruction) (op : Opcode) : String :=
  match op.mode with
  | .abc => s!"{i.a.toNat} {i.shownB op} {i.shownC op}" ++ if i.k then "k" else ""
  | .abx => s!"{i.a.toNat} {i.bx.toNat}"
  | .asbx => s!"{i.a.toNat} {i.sbx.toInt}"
  | .ax => toString i.ax.toNat
  | .sj => toString i.sj.toInt

/-- An instruction in a listing. -/
def display (i : Instruction) : String :=
  match i.opcode with
  | .ok op => padRight mnemonicWidth op.name ++ i.displayOperands op
  | .error _ => "?? 0x" ++ String.ofList (hexadecimal 8 i.word.toNat)

end Instruction

end LuaBytecode
