import LuaBytecode.Fault

/-!
# Opcodes

The instruction set of the virtual machine: what the opcodes are, in the order of their numbers,
and what is known of each without its operands.  `Opcode.all` is that order, so the number of an
opcode is its place there.
-/

namespace LuaBytecode

/-- How an instruction word is divided into operands. -/
inductive OperandMode where
  /-- Three operands of eight bits and a flag. -/
  | abc
  /-- A register and an operand of seventeen bits. -/
  | abx
  /-- A register and a signed operand of seventeen bits. -/
  | asbx
  /-- One operand of twenty-five bits. -/
  | ax
  /-- One signed operand of twenty-five bits. -/
  | sj
  deriving DecidableEq, Repr, Inhabited

/-- What a mode is called in the description of the instruction set. -/
def OperandMode.name : OperandMode → String
  | .abc => "iABC"
  | .abx => "iABx"
  | .asbx => "iAsBx"
  | .ax => "iAx"
  | .sj => "isJ"

/-- The opcodes.  In their comments `R` is the registers, `K` the constants and `U` the upvalues;
`RK(C)` is the constant `K[C]` if the flag of the instruction is set and the register `R[C]`
otherwise, and an `s` in front of an operand means that it is read as signed. -/
inductive Opcode where
  /-- Performs `R[A] := R[B]`. -/
  | move
  /-- Performs `R[A] := sBx`. -/
  | loadI
  /-- Performs `R[A] := (float)sBx`. -/
  | loadF
  /-- Performs `R[A] := K[Bx]`. -/
  | loadK
  /-- Performs `R[A] := K[extra arg]`. -/
  | loadKX
  /-- Performs `R[A] := false`. -/
  | loadFalse
  /-- Performs `R[A] := false; pc++`. -/
  | loadFalseSkip
  /-- Performs `R[A] := true`. -/
  | loadTrue
  /-- Performs `R[A], ..., R[A+B] := nil`. -/
  | loadNil
  /-- Performs `R[A] := U[B]`. -/
  | getUpvalue
  /-- Performs `U[B] := R[A]`. -/
  | setUpvalue
  /-- Performs `R[A] := U[B][K[C]:string]`. -/
  | getTabUp
  /-- Performs `R[A] := R[B][R[C]]`. -/
  | getTable
  /-- Performs `R[A] := R[B][C]`. -/
  | getI
  /-- Performs `R[A] := R[B][K[C]:string]`. -/
  | getField
  /-- Performs `U[A][K[B]:string] := RK(C)`. -/
  | setTabUp
  /-- Performs `R[A][R[B]] := RK(C)`. -/
  | setTable
  /-- Performs `R[A][B] := RK(C)`. -/
  | setI
  /-- Performs `R[A][K[B]:string] := RK(C)`. -/
  | setField
  /-- Performs `R[A] := {}`. -/
  | newTable
  /-- Performs `R[A+1] := R[B]; R[A] := R[B][RK(C):string]`. -/
  | self
  /-- Performs `R[A] := R[B] + sC`. -/
  | addI
  /-- Performs `R[A] := R[B] + K[C]:number`. -/
  | addK
  /-- Performs `R[A] := R[B] - K[C]:number`. -/
  | subK
  /-- Performs `R[A] := R[B] * K[C]:number`. -/
  | mulK
  /-- Performs `R[A] := R[B] % K[C]:number`. -/
  | modK
  /-- Performs `R[A] := R[B] ^ K[C]:number`. -/
  | powK
  /-- Performs `R[A] := R[B] / K[C]:number`. -/
  | divK
  /-- Performs `R[A] := R[B] // K[C]:number`. -/
  | floorDivK
  /-- Performs `R[A] := R[B] & K[C]:integer`. -/
  | bitAndK
  /-- Performs `R[A] := R[B] | K[C]:integer`. -/
  | bitOrK
  /-- Performs `R[A] := R[B] ~ K[C]:integer`. -/
  | bitXorK
  /-- Performs `R[A] := R[B] >> sC`. -/
  | shiftRightI
  /-- Performs `R[A] := sC << R[B]`. -/
  | shiftLeftI
  /-- Performs `R[A] := R[B] + R[C]`. -/
  | add
  /-- Performs `R[A] := R[B] - R[C]`. -/
  | sub
  /-- Performs `R[A] := R[B] * R[C]`. -/
  | mul
  /-- Performs `R[A] := R[B] % R[C]`. -/
  | mod
  /-- Performs `R[A] := R[B] ^ R[C]`. -/
  | pow
  /-- Performs `R[A] := R[B] / R[C]`. -/
  | div
  /-- Performs `R[A] := R[B] // R[C]`. -/
  | floorDiv
  /-- Performs `R[A] := R[B] & R[C]`. -/
  | bitAnd
  /-- Performs `R[A] := R[B] | R[C]`. -/
  | bitOr
  /-- Performs `R[A] := R[B] ~ R[C]`. -/
  | bitXor
  /-- Performs `R[A] := R[B] << R[C]`. -/
  | shiftLeft
  /-- Performs `R[A] := R[B] >> R[C]`. -/
  | shiftRight
  /-- Calls the metamethod of number `C` over `R[A]` and `R[B]`. -/
  | metaBinary
  /-- Calls the metamethod of number `C` over `R[A]` and `sB`. -/
  | metaBinaryI
  /-- Calls the metamethod of number `C` over `R[A]` and `K[B]`. -/
  | metaBinaryK
  /-- Performs `R[A] := -R[B]`. -/
  | negate
  /-- Performs `R[A] := ~R[B]`. -/
  | bitNot
  /-- Performs `R[A] := not R[B]`. -/
  | not
  /-- Performs `R[A] := #R[B]`. -/
  | length
  /-- Performs `R[A] := R[A].. ... ..R[A + B - 1]`. -/
  | concat
  /-- Closes all upvalues `>= R[A]`. -/
  | close
  /-- Marks the variable `A` as to be closed. -/
  | markClosed
  /-- Performs `pc += sJ`. -/
  | jump
  /-- Performs `if ((R[A] == R[B]) ~= k) then pc++`. -/
  | eq
  /-- Performs `if ((R[A] < R[B]) ~= k) then pc++`. -/
  | lt
  /-- Performs `if ((R[A] <= R[B]) ~= k) then pc++`. -/
  | le
  /-- Performs `if ((R[A] == K[B]) ~= k) then pc++`. -/
  | eqK
  /-- Performs `if ((R[A] == sB) ~= k) then pc++`. -/
  | eqI
  /-- Performs `if ((R[A] < sB) ~= k) then pc++`. -/
  | ltI
  /-- Performs `if ((R[A] <= sB) ~= k) then pc++`. -/
  | leI
  /-- Performs `if ((R[A] > sB) ~= k) then pc++`. -/
  | gtI
  /-- Performs `if ((R[A] >= sB) ~= k) then pc++`. -/
  | geI
  /-- Performs `if (not R[A] == k) then pc++`. -/
  | test
  /-- Performs `if (not R[B] == k) then pc++ else R[A] := R[B]`. -/
  | testSet
  /-- Performs `R[A], ..., R[A+C-2] := R[A](R[A+1], ..., R[A+B-1])`. -/
  | call
  /-- Performs `return R[A](R[A+1], ..., R[A+B-1])`. -/
  | tailCall
  /-- Performs `return R[A], ..., R[A+B-2]`. -/
  | ret
  /-- Performs `return`. -/
  | ret0
  /-- Performs `return R[A]`. -/
  | ret1
  /-- Updates the counters; if the loop continues then `pc -= Bx`. -/
  | forLoop
  /-- Checks the values and prepares the counters; if the loop is not to run then `pc += Bx + 1`. -/
  | forPrep
  /-- Creates an upvalue for `R[A + 3]`; `pc += Bx`. -/
  | genericForPrep
  /-- Performs `R[A+4], ..., R[A+3+C] := R[A](R[A+1], R[A+2])`. -/
  | genericForCall
  /-- Performs `if R[A+2] ~= nil then { R[A] = R[A+2]; pc -= Bx }`. -/
  | genericForLoop
  /-- Performs `R[A][C+i] := R[A+i], 1 <= i <= B`. -/
  | setList
  /-- Performs `R[A] := closure(child[Bx])`. -/
  | closure
  /-- Performs `R[A], ..., R[A+C-2] = vararg`. -/
  | varArg
  /-- Adjusts the vararg parameters. -/
  | varArgPrep
  /-- An extra, larger argument for the instruction before it. -/
  | extraArg
  deriving DecidableEq, Repr, Inhabited

/-- What is known of an opcode without its operands. -/
structure OpcodeInfo where
  /-- The mnemonic. -/
  name : String
  mode : OperandMode
  /-- Writes the register `R[A]`. -/
  setsA : Bool := false
  /-- A test: the next instruction is a jump. -/
  isTest : Bool := false
  /-- May use the values up to the top that the instruction before it left. -/
  usesTop : Bool := false
  /-- May leave values up to the top for the next instruction. -/
  setsTop : Bool := false
  /-- Calls a metamethod. -/
  isMetamethod : Bool := false
  deriving DecidableEq, Repr

namespace Opcode

/-- All opcodes, by number. -/
def all : List Opcode :=
  [.move, .loadI, .loadF, .loadK, .loadKX, .loadFalse, .loadFalseSkip, .loadTrue, .loadNil,
   .getUpvalue, .setUpvalue, .getTabUp, .getTable, .getI, .getField, .setTabUp, .setTable, .setI,
   .setField, .newTable, .self, .addI, .addK, .subK, .mulK, .modK, .powK, .divK, .floorDivK,
   .bitAndK, .bitOrK, .bitXorK, .shiftRightI, .shiftLeftI, .add, .sub, .mul, .mod, .pow, .div,
   .floorDiv, .bitAnd, .bitOr, .bitXor, .shiftLeft, .shiftRight, .metaBinary, .metaBinaryI,
   .metaBinaryK, .negate, .bitNot, .not, .length, .concat, .close, .markClosed, .jump, .eq, .lt,
   .le, .eqK, .eqI, .ltI, .leI, .gtI, .geI, .test, .testSet, .call, .tailCall, .ret, .ret0, .ret1,
   .forLoop, .forPrep, .genericForPrep, .genericForCall, .genericForLoop, .setList, .closure,
   .varArg, .varArgPrep, .extraArg]

/-- The number of an opcode. -/
def toNat (op : Opcode) : Nat := op.ctorIdx

/-- The opcode with a number. -/
def ofNat? (n : Nat) : Option Opcode := all[n]?

/-- What is known of an opcode. -/
def info : Opcode → OpcodeInfo
  | .move => { name := "MOVE", mode := .abc, setsA := true }
  | .loadI => { name := "LOADI", mode := .asbx, setsA := true }
  | .loadF => { name := "LOADF", mode := .asbx, setsA := true }
  | .loadK => { name := "LOADK", mode := .abx, setsA := true }
  | .loadKX => { name := "LOADKX", mode := .abx, setsA := true }
  | .loadFalse => { name := "LOADFALSE", mode := .abc, setsA := true }
  | .loadFalseSkip => { name := "LFALSESKIP", mode := .abc, setsA := true }
  | .loadTrue => { name := "LOADTRUE", mode := .abc, setsA := true }
  | .loadNil => { name := "LOADNIL", mode := .abc, setsA := true }
  | .getUpvalue => { name := "GETUPVAL", mode := .abc, setsA := true }
  | .setUpvalue => { name := "SETUPVAL", mode := .abc }
  | .getTabUp => { name := "GETTABUP", mode := .abc, setsA := true }
  | .getTable => { name := "GETTABLE", mode := .abc, setsA := true }
  | .getI => { name := "GETI", mode := .abc, setsA := true }
  | .getField => { name := "GETFIELD", mode := .abc, setsA := true }
  | .setTabUp => { name := "SETTABUP", mode := .abc }
  | .setTable => { name := "SETTABLE", mode := .abc }
  | .setI => { name := "SETI", mode := .abc }
  | .setField => { name := "SETFIELD", mode := .abc }
  | .newTable => { name := "NEWTABLE", mode := .abc, setsA := true }
  | .self => { name := "SELF", mode := .abc, setsA := true }
  | .addI => { name := "ADDI", mode := .abc, setsA := true }
  | .addK => { name := "ADDK", mode := .abc, setsA := true }
  | .subK => { name := "SUBK", mode := .abc, setsA := true }
  | .mulK => { name := "MULK", mode := .abc, setsA := true }
  | .modK => { name := "MODK", mode := .abc, setsA := true }
  | .powK => { name := "POWK", mode := .abc, setsA := true }
  | .divK => { name := "DIVK", mode := .abc, setsA := true }
  | .floorDivK => { name := "IDIVK", mode := .abc, setsA := true }
  | .bitAndK => { name := "BANDK", mode := .abc, setsA := true }
  | .bitOrK => { name := "BORK", mode := .abc, setsA := true }
  | .bitXorK => { name := "BXORK", mode := .abc, setsA := true }
  | .shiftRightI => { name := "SHRI", mode := .abc, setsA := true }
  | .shiftLeftI => { name := "SHLI", mode := .abc, setsA := true }
  | .add => { name := "ADD", mode := .abc, setsA := true }
  | .sub => { name := "SUB", mode := .abc, setsA := true }
  | .mul => { name := "MUL", mode := .abc, setsA := true }
  | .mod => { name := "MOD", mode := .abc, setsA := true }
  | .pow => { name := "POW", mode := .abc, setsA := true }
  | .div => { name := "DIV", mode := .abc, setsA := true }
  | .floorDiv => { name := "IDIV", mode := .abc, setsA := true }
  | .bitAnd => { name := "BAND", mode := .abc, setsA := true }
  | .bitOr => { name := "BOR", mode := .abc, setsA := true }
  | .bitXor => { name := "BXOR", mode := .abc, setsA := true }
  | .shiftLeft => { name := "SHL", mode := .abc, setsA := true }
  | .shiftRight => { name := "SHR", mode := .abc, setsA := true }
  | .metaBinary => { name := "MMBIN", mode := .abc, isMetamethod := true }
  | .metaBinaryI => { name := "MMBINI", mode := .abc, isMetamethod := true }
  | .metaBinaryK => { name := "MMBINK", mode := .abc, isMetamethod := true }
  | .negate => { name := "UNM", mode := .abc, setsA := true }
  | .bitNot => { name := "BNOT", mode := .abc, setsA := true }
  | .not => { name := "NOT", mode := .abc, setsA := true }
  | .length => { name := "LEN", mode := .abc, setsA := true }
  | .concat => { name := "CONCAT", mode := .abc, setsA := true }
  | .close => { name := "CLOSE", mode := .abc }
  | .markClosed => { name := "TBC", mode := .abc }
  | .jump => { name := "JMP", mode := .sj }
  | .eq => { name := "EQ", mode := .abc, isTest := true }
  | .lt => { name := "LT", mode := .abc, isTest := true }
  | .le => { name := "LE", mode := .abc, isTest := true }
  | .eqK => { name := "EQK", mode := .abc, isTest := true }
  | .eqI => { name := "EQI", mode := .abc, isTest := true }
  | .ltI => { name := "LTI", mode := .abc, isTest := true }
  | .leI => { name := "LEI", mode := .abc, isTest := true }
  | .gtI => { name := "GTI", mode := .abc, isTest := true }
  | .geI => { name := "GEI", mode := .abc, isTest := true }
  | .test => { name := "TEST", mode := .abc, isTest := true }
  | .testSet => { name := "TESTSET", mode := .abc, setsA := true, isTest := true }
  | .call => { name := "CALL", mode := .abc, setsA := true, usesTop := true, setsTop := true }
  | .tailCall =>
      { name := "TAILCALL", mode := .abc, setsA := true, usesTop := true, setsTop := true }
  | .ret => { name := "RETURN", mode := .abc, usesTop := true }
  | .ret0 => { name := "RETURN0", mode := .abc }
  | .ret1 => { name := "RETURN1", mode := .abc }
  | .forLoop => { name := "FORLOOP", mode := .abx, setsA := true }
  | .forPrep => { name := "FORPREP", mode := .abx, setsA := true }
  | .genericForPrep => { name := "TFORPREP", mode := .abx }
  | .genericForCall => { name := "TFORCALL", mode := .abc }
  | .genericForLoop => { name := "TFORLOOP", mode := .abx, setsA := true }
  | .setList => { name := "SETLIST", mode := .abc, usesTop := true }
  | .closure => { name := "CLOSURE", mode := .abx, setsA := true }
  | .varArg => { name := "VARARG", mode := .abc, setsA := true, setsTop := true }
  | .varArgPrep => { name := "VARARGPREP", mode := .abc, setsA := true, usesTop := true }
  | .extraArg => { name := "EXTRAARG", mode := .ax }

/-- The mnemonic. -/
def name (op : Opcode) : String := op.info.name

/-- How the operands are laid out. -/
def mode (op : Opcode) : OperandMode := op.info.mode

/-- The opcode with a number, or the failure to know one. -/
def ofByte (id : UInt8) : Except Fault Opcode :=
  match ofNat? id.toNat with
  | some op => .ok op
  | none => .error (.unknownOpcode id)

theorem ofNat?_toNat (op : Opcode) : ofNat? op.toNat = some op := by
  cases op <;> rfl

theorem toNat_lt (op : Opcode) : op.toNat < 83 := by
  cases op <;> decide

end Opcode

end LuaBytecode
