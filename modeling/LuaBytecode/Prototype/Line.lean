import LuaBytecode.Prototype.Basic

/-!
# The line of an instruction

Lines are stored as differences: each instruction has a signed byte that says how far its line is
from the line of the instruction before it, the first counting from the line of the definition.  A
difference that does not fit, or one now and then anyway, is replaced by an anchor, which states
the line outright; the byte is then the one value that is no difference.

The line of an instruction is that of the last anchor at or before it, moved by the differences in
between.  Only the final line has to fit a line number: the way there may lead through anything.
-/

namespace LuaBytecode

/-- The byte that marks an instruction whose line only an anchor knows. -/
def anchoredDelta : UInt8 := 0x80

/-- The difference a byte stands for, in two's complement; the mark of an anchor is none. -/
def lineDelta? (b : UInt8) : Option Int :=
  if b = anchoredDelta then none else some b.toInt8.toInt

/-- A line moved by a run of differences. -/
def advanceLine : (line : Int) → Bytes → Option Int
  | line, [] => some line
  | line, b :: rest =>
      match lineDelta? b with
      | some delta => advanceLine (line + delta) rest
      | none => none

/-- A number that fits a line number. -/
def lineOfInt? (line : Int) : Option UInt32 :=
  if 0 ≤ line ∧ line < UInt32.size then some (UInt32.ofNat line.toNat) else none

namespace Prototype

/-- The last anchor at or before an instruction; anchors are in order of their instructions. -/
def anchorBefore? (p : Prototype) (pc : Nat) : Option LineAnchor :=
  (p.lineAnchors.takeWhile (·.pc.toNat ≤ pc)).getLast?

/-- Where the line of an instruction is counted from: a line, and the first instruction whose
difference counts. -/
def lineBase (p : Prototype) (pc : Nat) : Int × Nat :=
  match p.anchorBefore? pc with
  | some anchor => (anchor.line.toNat, anchor.pc.toNat + 1)
  | none => (p.firstLine.toNat, 0)

/-- The line of an instruction; none for one that has no difference stored. -/
def lineAt? (p : Prototype) (pc : Nat) : Option UInt32 :=
  if pc < p.lineDeltas.length then
    let (line, first) := p.lineBase pc
    let deltas := (p.lineDeltas.drop first).take (pc + 1 - first)
    (advanceLine line deltas).bind lineOfInt?
  else
    none

end Prototype

end LuaBytecode
