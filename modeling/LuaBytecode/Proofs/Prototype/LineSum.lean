import LuaBytecode.Proofs.Prototype.Line
import Mathlib.Algebra.BigOperators.Intervals

/-!
# The line of an instruction is a sum

The tables of a chunk are read as they are, so a search for a line meets more than what
`LineRecord.store` writes: two anchors at one instruction, anchors behind the last, marks that no
anchor explains, differences that lead below zero and back.  For all of these the line is still one
sum: an anchor's line, or that of the definition, and the differences between there and the
instruction.  All that is asked of the tables is that the anchors are in order.

In a table in order the anchors at or before an instruction are a run at its front, so the end of
that run, where the search starts, is the last such anchor anywhere.  From there on the search goes
one instruction at a time, and its next step is the next term of the sum.

* `lineSum?` — the line of an instruction without a search.
* `anchorBefore?_eq` — the search starts from the last anchor anywhere.
* `advanceLine_window` — what a run of differences adds, and what stops it.
* **`lineAt?_eq_lineSum?`** — the search finds the sum.
-/

namespace LuaBytecode

/-! ## The sum -/

namespace Prototype

/-- The anchors are in order of their instructions; several may be at one. -/
def AnchorsOrdered (p : Prototype) : Prop := p.lineAnchors.Pairwise (·.pc ≤ ·.pc)

instance (p : Prototype) : Decidable p.AnchorsOrdered :=
  inferInstanceAs (Decidable (p.lineAnchors.Pairwise (·.pc ≤ ·.pc)))

/-- The last of all anchors at or before an instruction. -/
def lastAnchor? (p : Prototype) (pc : Nat) : Option LineAnchor :=
  (p.lineAnchors.filter (·.pc.toNat ≤ pc)).getLast?

/-- The byte stored for an instruction as a signed number, the mark of an anchor included. -/
def signedDelta (p : Prototype) (i : Nat) : Int := (p.lineDeltas.getD i 0).toInt8.toInt

/-- The line that is counted from, and the instructions whose differences count: those behind the
last anchor, or all from the first on if there is no anchor. -/
def lineTerms (p : Prototype) (pc : Nat) : Int × Finset Nat :=
  match p.lastAnchor? pc with
  | some anchor => (anchor.line.toNat, Finset.Ioc anchor.pc.toNat pc)
  | none => (p.firstLine.toNat, Finset.Iic pc)

/-- The line of an instruction by its definition: a sum, if there is a byte for the instruction, no
byte that counts is a mark, and the sum fits. -/
def lineSum? (p : Prototype) (pc : Nat) : Option UInt32 :=
  let (start, counted) := p.lineTerms pc
  let line := start + ∑ i ∈ counted, p.signedDelta i
  if pc < p.lineDeltas.length ∧ (∀ i ∈ counted, p.signedDelta i ≠ -128) ∧
      0 ≤ line ∧ line < UInt32.size then
    some (UInt32.ofNat line.toNat)
  else
    none

end Prototype

/-! ## The start of the search -/

namespace Prototype

variable {p : Prototype} {pc : Nat}

theorem anchorBefore?_eq (h : p.AnchorsOrdered) (pc : Nat) :
    p.anchorBefore? pc = p.lastAnchor? pc := by
  have hfront : p.lineAnchors.Pairwise fun a b =>
      decide (b.pc.toNat ≤ pc) = true → decide (a.pc.toNat ≤ pc) = true := by
    refine h.imp fun {a b} hab hb => ?_
    have hle := UInt32.le_iff_toNat_le.mp hab
    rw [decide_eq_true_eq] at hb ⊢
    omega
  rw [anchorBefore?, takeWhile_eq_filter hfront, lastAnchor?]

/-- What counts are the instructions from the base on, up to the one that is asked for. -/
theorem lineTerms_eq (h : p.AnchorsOrdered) (pc : Nat) :
    p.lineTerms pc = ((p.lineBase pc).1, Finset.Ico (p.lineBase pc).2 (pc + 1)) := by
  rw [lineTerms, lineBase, anchorBefore?_eq h]
  cases p.lastAnchor? pc with
  | none =>
      refine Prod.ext rfl (Finset.ext fun i => ?_)
      simp only [Finset.mem_Iic, Finset.mem_Ico]
      omega
  | some anchor =>
      refine Prod.ext rfl (Finset.ext fun i => ?_)
      simp only [Finset.mem_Ioc, Finset.mem_Ico]
      omega

end Prototype

/-! ## A run of differences -/

theorem lineDelta?_eq (b : UInt8) :
    lineDelta? b = if b.toInt8.toInt ≠ -128 then some b.toInt8.toInt else none := by
  have hmark : b = anchoredDelta ↔ b.toInt8.toInt = -128 := by
    constructor
    · rintro rfl
      decide
    · intro h
      have hsame : b.toInt8 = anchoredDelta.toInt8 := Int8.toInt_inj.mp h
      rw [← b.toUInt8_toInt8, hsame, anchoredDelta.toUInt8_toInt8]
  rw [lineDelta?, ite_not]
  exact if_congr hmark rfl rfl

namespace Prototype

variable {p : Prototype}

/-- **A run of differences adds them up**, unless there is a mark among them.  The induction is on
the length of the run, as the last step of it brings the last term of the sum. -/
theorem advanceLine_window (line : Int) (first : Nat) :
    ∀ count, first + count ≤ p.lineDeltas.length →
      advanceLine line ((p.lineDeltas.drop first).take count)
        = if ∀ i ∈ Finset.Ico first (first + count), p.signedDelta i ≠ -128 then
            some (line + ∑ i ∈ Finset.Ico first (first + count), p.signedDelta i)
          else none := by
  intro count
  induction count with
  | zero => intro _; simp [advanceLine]
  | succ count ih =>
      intro hcount
      have hlt : first + count < p.lineDeltas.length := by omega
      have hnext : (p.lineDeltas.drop first)[count]? = some p.lineDeltas[first + count] := by
        rw [List.getElem?_drop, List.getElem?_eq_getElem hlt]
      have hdelta : p.signedDelta (first + count) = p.lineDeltas[first + count].toInt8.toInt := by
        rw [signedDelta, List.getD_eq_getElem?_getD, List.getElem?_eq_getElem hlt, Option.getD_some]
      have hmarks : (∀ i ∈ Finset.Ico first (first + count + 1), p.signedDelta i ≠ -128) ↔
          (∀ i ∈ Finset.Ico first (first + count), p.signedDelta i ≠ -128) ∧
            p.signedDelta (first + count) ≠ -128 := by
        rw [← Finset.insert_Ico_right_eq_Ico_add_one (by omega), Finset.forall_mem_insert]
        exact and_comm
      rw [List.take_add_one, hnext, advanceLine_append, ih (by omega), Option.toList_some,
        ← Nat.add_assoc, Finset.sum_Ico_succ_top (by omega), ← Int.add_assoc]
      by_cases hbefore : ∀ i ∈ Finset.Ico first (first + count), p.signedDelta i ≠ -128
      · rw [if_pos hbefore, Option.bind_some, advanceLine_singleton, lineDelta?_eq, ← hdelta]
        by_cases hlast : p.signedDelta (first + count) ≠ -128
        · rw [if_pos hlast, if_pos (hmarks.mpr ⟨hbefore, hlast⟩), Option.map_some]
        · rw [if_neg hlast, if_neg fun h => hlast (hmarks.mp h).2, Option.map_none]
      · rw [if_neg hbefore, if_neg fun h => hbefore (hmarks.mp h).1, Option.bind_none]

/-! ## The line -/

/-- **The search finds the sum**, whatever the tables hold, if the anchors are in order. -/
theorem lineAt?_eq_lineSum? (p : Prototype) (hordered : p.AnchorsOrdered) (pc : Nat) :
    p.lineAt? pc = p.lineSum? pc := by
  rw [lineAt?_eq, reached, lineSum?, lineTerms_eq hordered]
  by_cases hpc : pc < p.lineDeltas.length
  · have hbase := p.lineBase_le pc
    have hend : (p.lineBase pc).2 + (pc + 1 - (p.lineBase pc).2) = pc + 1 := by omega
    rw [if_pos hpc, advanceLine_window _ _ _ (by omega), hend]
    by_cases hmarks : ∀ i ∈ Finset.Ico (p.lineBase pc).2 (pc + 1), p.signedDelta i ≠ -128
    · rw [if_pos hmarks, Option.bind_some, lineOfInt?]
      exact if_congr ⟨fun hfits => ⟨hpc, hmarks, hfits⟩, fun h => h.2.2⟩ rfl rfl
    · rw [if_neg hmarks]
      exact (if_neg fun h => hmarks h.2.1).symm
  · rw [if_neg hpc]
    exact (if_neg fun h => hpc h.1).symm

/-- Two anchors at one instruction and one behind the table, marks with and without an anchor, and
differences that lead below zero and back. -/
def tangledLines : Prototype :=
  { (default : Prototype) with
    firstLine := 3
    lineDeltas := [0x80, 0x80, 0x9C, 0x7F, 0x80, 1]
    lineAnchors := [⟨1, 400⟩, ⟨1, 60⟩, ⟨900, 7⟩] }

/-- The second of the two anchors counts; a sum below zero is no line, but leads to one; a mark
without an anchor leaves itself and all behind it without a line. -/
theorem lineAt?_eq_lineSum?_tangledLines :
    tangledLines.AnchorsOrdered ∧ tangledLines.lineAt? 0 = none ∧
      tangledLines.lineAt? 1 = some 60 ∧ tangledLines.lineAt? 2 = none ∧
      tangledLines.lineAt? 3 = some 87 ∧ tangledLines.lineAt? 5 = none ∧
      tangledLines.lineAt? 6 = none := by
  have hordered : tangledLines.AnchorsOrdered := by decide
  have hline := lineAt?_eq_lineSum? tangledLines hordered
  exact ⟨hordered, (hline 0).trans (by decide), (hline 1).trans (by decide),
    (hline 2).trans (by decide), (hline 3).trans (by decide), (hline 5).trans (by decide),
    (hline 6).trans (by decide)⟩

end Prototype

end LuaBytecode
