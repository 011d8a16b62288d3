import LuaBytecode.Chunk.Encode
import LuaBytecode.Prototype.Walk
import Mathlib.Algebra.GroupWithZero.Nat

/-!
# How much a chunk has to store

Lengths are stored as 64-bit numbers, the length of a string with one added, and the number of
upvalues of the main function as a byte: `FitsChunk` says which trees can be stored at all.  In the
other direction `leastSize` is a number of bytes that every form of a tree has at least, so that a
short chunk cannot hold a large tree.
-/

namespace LuaBytecode

/-- A string whose size can be stored. -/
def fitsString (s : Bytes) : Prop := s.length < UInt64.size - 1

/-- A table whose length can be stored. -/
def fitsTable {α : Type} (entries : List α) : Prop := entries.length < UInt64.size

/-- The bytes of a constant besides its tag and numbers. -/
def Constant.textSize : Constant → Nat
  | .string bytes => bytes.length
  | _ => 0

namespace Prototype

/-- A function whose own strings and tables can be stored. -/
structure FitsAlone (p : Prototype) : Prop where
  source : fitsString p.source
  strings : ∀ s, Constant.string s ∈ p.constants → fitsString s
  localNames : ∀ v ∈ p.localVars, fitsString v.name
  upvalueNames : ∀ s ∈ p.upvalueNames, fitsString s
  codeTable : fitsTable p.code
  constantTable : fitsTable p.constants
  upvalueTable : fitsTable p.upvalues
  childTable : fitsTable p.children
  deltaTable : fitsTable p.lineDeltas
  anchorTable : fitsTable p.lineAnchors
  localTable : fitsTable p.localVars
  nameTable : fitsTable p.upvalueNames

/-- A tree that can be stored. -/
def Fits (p : Prototype) : Prop := ∀ q ∈ p.preorder, q.FitsAlone

theorem fits_iff {p : Prototype} : p.Fits ↔ p.FitsAlone ∧ ∀ c ∈ p.children, c.Fits := by
  unfold Fits
  rw [preorder_eq, List.forall_mem_cons, List.forall_mem_flatMap]

/-- A tree that can be stored as a chunk. -/
def FitsChunk (main : Prototype) : Prop := main.Fits ∧ main.upvalues.length ≤ 255

/-- What a function takes at least without the functions nested in it: fourteen bytes for fields
and lengths, and for each entry of a table what the shortest entry takes. -/
def leastOwnSize (p : Prototype) : Nat :=
  14 + 4 * p.code.length + p.constants.length + 3 * p.upvalues.length + p.lineDeltas.length +
    2 * p.lineAnchors.length + 3 * p.localVars.length + p.upvalueNames.length +
    (p.constants.map (·.textSize)).sum + (p.localVars.map (·.name.length)).sum +
    (p.upvalueNames.map (·.length)).sum

/-- What a tree takes at least. -/
def leastSize (p : Prototype) : Nat := (p.preorder.map leastOwnSize).sum

end Prototype

end LuaBytecode
