import LuaBytecode.Constant.Basic

/-!
# Function prototypes

What a chunk holds is a tree of prototypes: the static description of a compiled function, and
below it those of the functions nested in it.  A prototype owns its children; nothing is shared.
-/

namespace LuaBytecode

/-- Where a function finds a variable it captures. -/
structure Upvalue where
  /-- In the frame of the enclosing function, and not among the upvalues of that function. -/
  inStack : Bool
  /-- The place there. -/
  index : UInt8
  /-- The kind of the variable. -/
  kind : UInt8
  deriving DecidableEq, Repr, Inhabited

/-- The line of one instruction, stated outright. -/
structure LineAnchor where
  pc : UInt32
  line : UInt32
  deriving DecidableEq, Repr, Inhabited

/-- A local variable and the instructions where it is alive: from `startPc` on, before `endPc`. -/
structure LocalVar where
  name : Bytes
  startPc : UInt32
  endPc : UInt32
  deriving DecidableEq, Repr, Inhabited

/-- A function prototype. -/
structure Prototype where
  /-- Where the function was compiled from. -/
  source : Bytes
  /-- The line its definition starts on; zero for the main function. -/
  firstLine : UInt32
  /-- The line its definition ends on. -/
  lastLine : UInt32
  paramCount : UInt8
  isVararg : Bool
  /-- How many registers it needs. -/
  stackSize : UInt8
  /-- The instruction words, by program counter. -/
  code : List UInt32
  constants : List Constant
  upvalues : List Upvalue
  /-- The functions nested directly in it. -/
  children : List Prototype
  /-- For each instruction, how far its line is from the one before, as a signed byte. -/
  lineDeltas : Bytes
  /-- The lines of some instructions. -/
  lineAnchors : List LineAnchor
  localVars : List LocalVar
  /-- The names of the upvalues, as far as they are kept. -/
  upvalueNames : List Bytes
  deriving Inhabited

namespace Prototype

/-- The main function is the one that is defined on no line. -/
def isMain (p : Prototype) : Bool := p.firstLine = 0

/-- The name of an upvalue, if it is kept. -/
def upvalueName? (p : Prototype) (index : Nat) : Option Bytes := p.upvalueNames[index]?

/-- The name of the `n`-th variable alive at an instruction, counting from one.  The ranges are in
order of their start, so the search ends at the first that starts later. -/
def localName? (p : Prototype) (n : Nat) (pc : UInt32) : Option Bytes :=
  if n = 0 then none
  else
    let started := p.localVars.takeWhile (·.startPc ≤ pc)
    let alive := started.filter (pc < ·.endPc)
    alive[n - 1]?.map (·.name)

end Prototype

end LuaBytecode
