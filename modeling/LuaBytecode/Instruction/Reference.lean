import LuaBytecode.Instruction.Word

/-!
# What an instruction refers to

An operand of an instruction is often a place in a table of its function: in the constants or among
the upvalues.  `Instruction.references` reads off the meaning of each opcode which places those
are, in the order in which the meaning names them.
-/

namespace LuaBytecode

/-- A place in a table of the function. -/
inductive Reference where
  | constant (index : Nat)
  | upvalue (index : Nat)
  deriving DecidableEq, Repr

namespace Instruction

/-- The constant that `RK(C)` is, if the flag says that it is one. -/
def constantOfC (i : Instruction) : List Reference :=
  if i.k then [.constant i.c.toNat] else []

/-- The constants and upvalues that an instruction with an opcode uses. -/
def references (i : Instruction) : Opcode → List Reference
  | .loadK => [.constant i.bx.toNat]
  | .getUpvalue | .setUpvalue => [.upvalue i.b.toNat]
  | .getTabUp => [.upvalue i.b.toNat, .constant i.c.toNat]
  | .setTabUp => [.upvalue i.a.toNat, .constant i.b.toNat] ++ i.constantOfC
  | .getField => [.constant i.c.toNat]
  | .setField => [.constant i.b.toNat] ++ i.constantOfC
  | .setTable | .setI | .self => i.constantOfC
  | .addK | .subK | .mulK | .modK | .powK | .divK | .floorDivK => [.constant i.c.toNat]
  | .bitAndK | .bitOrK | .bitXorK => [.constant i.c.toNat]
  | .eqK | .metaBinaryK => [.constant i.b.toNat]
  | _ => []

end Instruction

end LuaBytecode
