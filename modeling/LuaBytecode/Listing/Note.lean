import LuaBytecode.Constant.Display
import LuaBytecode.Instruction.Display
import LuaBytecode.Prototype.Basic

/-!
# Notes on instructions

Behind an instruction a listing says what its operands stand for: the constants and the names of
the upvalues it uses, where a jump leads, which nested function a closure is made of.  A note is a
list of such items; an instruction without any has no note.
-/

namespace LuaBytecode

/-- One thing that a note says. -/
inductive NoteItem where
  | constant (index : Nat)
  | upvalue (index : Nat)
  /-- The jump leads to this instruction. -/
  | target (pc : Nat)
  | child (index : Nat)
  deriving DecidableEq, Repr

namespace NoteItem

/-- The text of an item.  A constant that is not in the table is a question mark, an upvalue
without a name a dash; instructions are numbered from one. -/
def text (p : Prototype) : NoteItem → String
  | .constant index => (p.constants[index]?.map Constant.display).getD "?"
  | .upvalue index => ((p.upvalueName? index).map Utf8.lossy).getD "-"
  | .target pc => s!"to {pc + 1}"
  | .child index => s!"function {index}"

/-- The third operand of an instruction whose flag says that it is a constant. -/
def flaggedConstant (i : Instruction) : List NoteItem :=
  if i.k then [.constant i.c.toNat] else []

/-- What a listing says about an instruction at a place. -/
def ofInstruction (pc : Nat) (i : Instruction) : Opcode → List NoteItem
  | .loadK => [.constant i.bx.toNat]
  | .getUpvalue | .setUpvalue => [.upvalue i.b.toNat]
  | .getTabUp => [.upvalue i.b.toNat, .constant i.c.toNat]
  | .setTabUp => .upvalue i.a.toNat :: .constant i.b.toNat :: flaggedConstant i
  | .getField => [.constant i.c.toNat]
  | .self => flaggedConstant i
  | .setField => .constant i.b.toNat :: flaggedConstant i
  | .addK | .subK | .mulK | .modK | .powK | .divK | .floorDivK => [.constant i.c.toNat]
  | .bitAndK | .bitOrK | .bitXorK => [.constant i.c.toNat]
  | .eqK | .metaBinaryK => [.constant i.b.toNat]
  | .jump => ((jumpTarget? i.sj pc).map .target).toList
  | .closure => [.child i.bx.toNat]
  | _ => []

end NoteItem

namespace Instruction

/-- The note on an instruction of a function, if there is anything to say. -/
def note? (p : Prototype) (pc : Nat) (i : Instruction) : Option String :=
  match i.opcode with
  | .error _ => none
  | .ok op =>
      match NoteItem.ofInstruction pc i op with
      | [] => none
      | items => some (" ".intercalate (items.map (NoteItem.text p)))

end Instruction

end LuaBytecode
