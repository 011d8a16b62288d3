import LuaBytecode.Instruction.Opcode

/-!
# Instruction words

An instruction is a word of 32 bits.  The low seven bits are its opcode; how the other bits are
divided depends on the mode of the opcode:

```
abc     C (8)    B (8)    k (1)   A (8)   opcode (7)
abx     Bx (17)                   A (8)   opcode (7)
asbx    sBx (17)                  A (8)   opcode (7)
ax      Ax (25)                           opcode (7)
sj      sJ (25)                           opcode (7)
```

A signed operand is stored with half of its greatest value added.  `pack` puts operands back
together, so that decoding and packing can be compared.
-/

namespace LuaBytecode

/-- The operands of an instruction, by mode. -/
inductive Operands where
  | abc (a : UInt8) (k : Bool) (b c : UInt8)
  | abx (a : UInt8) (bx : UInt32)
  | asbx (a : UInt8) (sbx : Int32)
  | ax (ax : UInt32)
  | sj (sj : Int32)
  deriving DecidableEq, Repr, Inhabited

/-- The mode operands belong to. -/
def Operands.mode : Operands → OperandMode
  | .abc .. => .abc
  | .abx .. => .abx
  | .asbx .. => .asbx
  | .ax .. => .ax
  | .sj .. => .sj

/-- The register `A`, where the mode has one. -/
def Operands.register? : Operands → Option UInt8
  | .abc a _ _ _ => some a
  | .abx a _ => some a
  | .asbx a _ => some a
  | .ax _ => none
  | .sj _ => none

/-- An instruction word. -/
structure Instruction where
  word : UInt32
  deriving DecidableEq, Repr, Inhabited

namespace Instruction

/-- What is added to a signed operand of eight bits. -/
def biasC : Int32 := 127

/-- What is added to a signed operand of seventeen bits. -/
def biasBx : Int32 := 65535

/-- What is added to a signed operand of twenty-five bits. -/
def biasJ : Int32 := 16777215

/-! ## The fields -/

def opcodeId (i : Instruction) : UInt8 := (i.word &&& 0x7F).toUInt8

def a (i : Instruction) : UInt8 := (i.word >>> 7).toUInt8

def k (i : Instruction) : Bool := (i.word >>> 15) &&& 1 ≠ 0

def b (i : Instruction) : UInt8 := (i.word >>> 16).toUInt8

def c (i : Instruction) : UInt8 := (i.word >>> 24).toUInt8

def sb (i : Instruction) : Int32 := i.b.toUInt32.toInt32 - biasC

def sc (i : Instruction) : Int32 := i.c.toUInt32.toInt32 - biasC

def bx (i : Instruction) : UInt32 := i.word >>> 15

def sbx (i : Instruction) : Int32 := i.bx.toInt32 - biasBx

def ax (i : Instruction) : UInt32 := i.word >>> 7

def sj (i : Instruction) : Int32 := i.ax.toInt32 - biasJ

/-! ## Decoding -/

/-- The opcode, if there is one with the number of the word. -/
def opcode (i : Instruction) : Except Fault Opcode := Opcode.ofByte i.opcodeId

/-- The operands as a mode divides the word, whatever the opcode. -/
def operands (i : Instruction) : OperandMode → Operands
  | .abc => .abc i.a i.k i.b i.c
  | .abx => .abx i.a i.bx
  | .asbx => .asbx i.a i.sbx
  | .ax => .ax i.ax
  | .sj => .sj i.sj

/-- The operands as the opcode with the number `id` divides the word; the number in the word itself
is not looked at. -/
def decodeAs (i : Instruction) (id : UInt8) : Except Fault Operands :=
  (fun op => i.operands op.mode) <$> Opcode.ofByte id

/-- The operands as the word's own opcode divides it. -/
def decode (i : Instruction) : Except Fault Operands := i.decodeAs i.opcodeId

/-! ## Packing -/

/-- The bits of operands, each at its place. -/
def packOperands : Operands → UInt32
  | .abc a k b c =>
      a.toUInt32 <<< 7 ||| k.toUInt32 <<< 15 ||| b.toUInt32 <<< 16 ||| c.toUInt32 <<< 24
  | .abx a bx => a.toUInt32 <<< 7 ||| bx <<< 15
  | .asbx a sbx => a.toUInt32 <<< 7 ||| (sbx + biasBx).toUInt32 <<< 15
  | .ax ax => ax <<< 7
  | .sj sj => (sj + biasJ).toUInt32 <<< 7

/-- The word with an opcode and operands. -/
def pack (id : UInt8) (operands : Operands) : Instruction :=
  ⟨(id &&& 0x7F).toUInt32 ||| packOperands operands⟩

end Instruction

/-- Where a jump at an instruction leads: the offset counts from the instruction behind it, and a
place before the first instruction is none. -/
def jumpTarget? (offset : Int32) (pc : Nat) : Option Nat := (pc + 1 + offset.toInt).toNat?

end LuaBytecode
