import LuaBytecode.Proofs.Front
import LuaBytecode.Prototype.Line

/-!
# Stored lines are found again

The lines of a function's instructions can be stored in many ways: any instruction may have an
anchor, and those that are too far from the line before have to.  This file writes down what is
stored for a choice of anchors (`LineRecord`) and shows that the line of every instruction comes
back, whatever the choice.

Which anchor a search starts from is different for each instruction, so the statement is not one
about a single run of differences.  It goes from one instruction to the next: `reached_succ` says
that the search for an instruction without an anchor does what the search for the one before it
does, and then one step.

* `anchorBefore?_store` — the search starts from the last anchor that has been chosen.
* `reached_succ`, `reached_of_anchor` — one step of the search, and a start.
* **`lineAt?_store`** — the line of every instruction comes back.
-/

namespace LuaBytecode

/-! ## The search for one instruction and for the next -/

theorem advanceLine_append (line : Int) (front back : Bytes) :
    advanceLine line (front ++ back)
      = (advanceLine line front).bind fun reached => advanceLine reached back := by
  induction front generalizing line with
  | nil => rfl
  | cons b front ih =>
      rw [List.cons_append, advanceLine, advanceLine]
      cases lineDelta? b with
      | none => rfl
      | some delta => exact ih (line + delta)

theorem advanceLine_singleton (line : Int) (b : UInt8) :
    advanceLine line [b] = (lineDelta? b).map (line + ·) := by
  rw [advanceLine]
  cases lineDelta? b <;> rfl

namespace Prototype

variable {p : Prototype} {pc : Nat}

/-- The line a search ends at, before it is asked whether it fits. -/
def reached (p : Prototype) (pc : Nat) : Option Int :=
  advanceLine (p.lineBase pc).1
    ((p.lineDeltas.drop (p.lineBase pc).2).take (pc + 1 - (p.lineBase pc).2))

theorem lineAt?_eq (p : Prototype) (pc : Nat) :
    p.lineAt? pc = if pc < p.lineDeltas.length then (p.reached pc).bind lineOfInt? else none := rfl

/-- A search never starts behind the instruction it is for. -/
theorem lineBase_le (p : Prototype) (pc : Nat) : (p.lineBase pc).2 ≤ pc + 1 := by
  rw [lineBase]
  cases h : p.anchorBefore? pc with
  | none => exact Nat.zero_le _
  | some anchor =>
      have hmem := List.mem_of_getLast? h
      have hle := List.mem_takeWhile_imp hmem
      simp only [decide_eq_true_eq] at hle
      exact Nat.succ_le_succ hle

theorem reached_of_anchor {anchor : LineAnchor} (h : p.anchorBefore? pc = some anchor)
    (hpc : anchor.pc.toNat = pc) : p.reached pc = some (anchor.line.toNat : Int) := by
  have hbase : p.lineBase pc = ((anchor.line.toNat : Int), pc + 1) := by
    rw [lineBase, h, ← hpc]
  rw [reached, hbase, Nat.sub_self, List.take_zero]
  rfl

theorem reached_zero {b : UInt8} (h : p.anchorBefore? 0 = none) (hb : p.lineDeltas[0]? = some b) :
    p.reached 0 = (lineDelta? b).map ((p.firstLine.toNat : Int) + ·) := by
  have hbase : p.lineBase 0 = ((p.firstLine.toNat : Int), 0) := by
    rw [lineBase, h]
  have hfirst : p.lineDeltas.take 1 = [b] := by
    rw [List.take_add_one, hb]
    rfl
  rw [reached, hbase, List.drop_zero]
  exact (congrArg _ hfirst).trans (advanceLine_singleton _ b)

/-- **The next search goes on where this one ends**, unless it starts from an anchor of its own. -/
theorem reached_succ {b : UInt8} (h : p.anchorBefore? (pc + 1) = p.anchorBefore? pc)
    (hb : p.lineDeltas[pc + 1]? = some b) :
    p.reached (pc + 1) = (p.reached pc).bind fun line => (lineDelta? b).map (line + ·) := by
  have hbase : p.lineBase (pc + 1) = p.lineBase pc := by
    rw [lineBase, lineBase, h]
  have hle := p.lineBase_le pc
  have hcount : pc + 1 + 1 - (p.lineBase pc).2 = (pc + 1 - (p.lineBase pc).2) + 1 := by omega
  have hnext : (p.lineDeltas.drop (p.lineBase pc).2)[pc + 1 - (p.lineBase pc).2]? = some b := by
    rw [List.getElem?_drop, Nat.add_sub_cancel' hle, hb]
  rw [reached, hbase, hcount, List.take_add_one, hnext, advanceLine_append]
  simp only [Option.toList_some, advanceLine_singleton]
  rfl

end Prototype

/-! ## What is stored -/

/-- The lines of the instructions of a function, and which of them are to be stated outright. -/
structure LineRecord where
  /-- The line the definition of the function starts on. -/
  firstLine : UInt32
  /-- How many instructions there are. -/
  count : Nat
  /-- The line of each of them. -/
  line : Nat → UInt32
  /-- The instructions that get an anchor. -/
  anchored : Nat → Bool

namespace LineRecord

variable (r : LineRecord)

/-- The line before that of an instruction. -/
def lineBefore : Nat → UInt32
  | 0 => r.firstLine
  | pc + 1 => r.line pc

/-- How far the line of an instruction is from the line before. -/
def delta (pc : Nat) : Int := (r.line pc).toNat - (r.lineBefore pc).toNat

/-- A record that can be stored: anchors have room for the program counters, and an instruction has
one if its difference does not fit a signed byte, or is the one that is no difference. -/
structure Storable : Prop where
  count_le : r.count ≤ UInt32.size
  far : ∀ pc < r.count, 128 ≤ (r.delta pc).natAbs → r.anchored pc = true

/-- The byte stored for an instruction. -/
def deltaByte (pc : Nat) : UInt8 :=
  if r.anchored pc then anchoredDelta else (Int8.ofInt (r.delta pc)).toUInt8

def anchor (pc : Nat) : LineAnchor := ⟨UInt32.ofNat pc, r.line pc⟩

/-- The anchors of the first `n` instructions, in their order. -/
def anchorsBelow (n : Nat) : List LineAnchor := ((List.range n).filter r.anchored).map r.anchor

/-- A function with its lines stored; it keeps everything else. -/
def store (p : Prototype) : Prototype :=
  { p with
    firstLine := r.firstLine
    lineDeltas := (List.range r.count).map r.deltaByte
    lineAnchors := r.anchorsBelow r.count }

variable {r} {p : Prototype} {pc : Nat}

/-! ## The start of the search -/

theorem toNat_anchor_pc (h : r.Storable) (hpc : pc < r.count) : (r.anchor pc).pc.toNat = pc :=
  UInt32.toNat_ofNat_of_lt' (Nat.lt_of_lt_of_le hpc h.count_le)

/-- **The search starts from the last anchor that has been chosen.**  The anchors of the first
instructions are all taken and the first of the others ends the run. -/
theorem anchorBefore?_store (h : r.Storable) (hpc : pc < r.count) :
    (r.store p).anchorBefore? pc = (r.anchorsBelow (pc + 1)).getLast? := by
  obtain ⟨more, hmore⟩ : ∃ more, r.count = pc + 1 + more := ⟨r.count - (pc + 1), by omega⟩
  have hsplit : r.anchorsBelow r.count = r.anchorsBelow (pc + 1) ++
      (((List.range more).map (pc + 1 + ·)).filter r.anchored).map r.anchor := by
    rw [anchorsBelow, anchorsBelow, hmore, List.range_add, List.filter_append, List.map_append]
  have hfront : ∀ a ∈ r.anchorsBelow (pc + 1), decide (a.pc.toNat ≤ pc) = true := by
    intro a ha
    obtain ⟨i, hi, rfl⟩ := List.mem_map.mp ha
    have hle := List.mem_range.mp (List.mem_filter.mp hi).1
    rw [toNat_anchor_pc h (by omega), decide_eq_true_eq]
    omega
  have hback : ∀ a ∈ (((List.range more).map (pc + 1 + ·)).filter r.anchored).map r.anchor,
      ¬decide (a.pc.toNat ≤ pc) = true := by
    intro a ha
    obtain ⟨i, hi, rfl⟩ := List.mem_map.mp ha
    obtain ⟨j, hj, rfl⟩ := List.mem_map.mp (List.mem_filter.mp hi).1
    have hlt := List.mem_range.mp hj
    rw [toNat_anchor_pc h (by omega), decide_eq_true_eq]
    omega
  rw [Prototype.anchorBefore?, store, hsplit, List.takeWhile_append_of_pos hfront,
    List.takeWhile_eq_nil_iff.mpr fun _ => hback _ (List.get_mem _ _), List.append_nil]

theorem anchorsBelow_succ (n : Nat) :
    r.anchorsBelow (n + 1) = r.anchorsBelow n ++ if r.anchored n then [r.anchor n] else [] := by
  rw [anchorsBelow, List.range_succ, List.filter_append, List.map_append, ← anchorsBelow]
  cases hn : r.anchored n <;> simp [hn]

/-! ## One byte -/

theorem lineDelta?_ofInt {d : Int} (h : d.natAbs < 128) :
    lineDelta? (Int8.ofInt d).toUInt8 = some d := by
  have hback : (Int8.ofInt d).toUInt8.toInt8.toInt = d := by
    rw [Int8.toInt8_toUInt8]
    exact Int8.toInt_ofInt_of_le (by omega) (by omega)
  have hmark : (Int8.ofInt d).toUInt8 ≠ anchoredDelta := by
    intro heq
    have hlow : anchoredDelta.toInt8.toInt = -128 := by decide
    rw [heq] at hback
    omega
  rw [lineDelta?, if_neg hmark, hback]

theorem lineDelta?_deltaByte (h : r.Storable) (hpc : pc < r.count) (hnot : r.anchored pc = false) :
    lineDelta? (r.deltaByte pc) = some (r.delta pc) := by
  have hnear : (r.delta pc).natAbs < 128 := by
    by_contra hfar
    rw [h.far pc hpc (by omega)] at hnot
    cases hnot
  rw [deltaByte, hnot]
  exact lineDelta?_ofInt hnear

theorem lineOfInt?_toNat (line : UInt32) : lineOfInt? (line.toNat : Int) = some line := by
  have hlt := line.toNat_lt_size
  rw [lineOfInt?, if_pos (by omega), Int.toNat_natCast, UInt32.ofNat_toNat]

/-! ## The lines -/

theorem length_lineDeltas_store : (r.store p).lineDeltas.length = r.count := by
  rw [store, List.length_map, List.length_range]

theorem lineDeltas_store (hpc : pc < r.count) :
    (r.store p).lineDeltas[pc]? = some (r.deltaByte pc) := by
  rw [store, List.getElem?_map, List.getElem?_range hpc]
  rfl

theorem reached_store_of_anchored (h : r.Storable) (hpc : pc < r.count)
    (hanchored : r.anchored pc = true) :
    (r.store p).reached pc = some ((r.line pc).toNat : Int) := by
  have hstart : (r.store p).anchorBefore? pc = some (r.anchor pc) := by
    rw [anchorBefore?_store h hpc, anchorsBelow_succ, if_pos hanchored, List.getLast?_concat]
  exact Prototype.reached_of_anchor hstart (toNat_anchor_pc h hpc)

/-- **A search ends at the line of its instruction.**  The induction is on the instruction: one
without an anchor has the search of the one before it, and its byte is the last step. -/
theorem reached_store (h : r.Storable) : ∀ pc < r.count,
    (r.store p).reached pc = some ((r.line pc).toNat : Int) := by
  intro pc
  induction pc with
  | zero =>
      intro hpc
      cases hanchored : r.anchored 0 with
      | true => exact reached_store_of_anchored h hpc hanchored
      | false =>
          have hstart : (r.store p).anchorBefore? 0 = none := by
            rw [anchorBefore?_store h hpc, anchorsBelow_succ, hanchored]
            rfl
          have hline : (r.firstLine.toNat : Int) + r.delta 0 = (r.line 0).toNat := by
            rw [delta, lineBefore]
            omega
          rw [Prototype.reached_zero hstart (lineDeltas_store hpc),
            lineDelta?_deltaByte h hpc hanchored, Option.map_some, ← hline]
          rfl
  | succ pc ih =>
      intro hpc
      have hbefore : pc < r.count := by omega
      cases hanchored : r.anchored (pc + 1) with
      | true => exact reached_store_of_anchored h hpc hanchored
      | false =>
          have hstart : (r.store p).anchorBefore? (pc + 1) = (r.store p).anchorBefore? pc := by
            rw [anchorBefore?_store h hpc, anchorBefore?_store h hbefore,
              anchorsBelow_succ (pc + 1), hanchored, if_neg (by decide), List.append_nil]
          have hline : ((r.line pc).toNat : Int) + r.delta (pc + 1) = (r.line (pc + 1)).toNat := by
            rw [delta, lineBefore]
            omega
          rw [Prototype.reached_succ hstart (lineDeltas_store hpc), ih hbefore,
            lineDelta?_deltaByte h hpc hanchored, Option.bind_some, Option.map_some, hline]

/-- **The line of every instruction comes back**, whichever instructions have an anchor, and there
is none for an instruction that has not been stored. -/
theorem lineAt?_store (r : LineRecord) (h : r.Storable) (p : Prototype) (pc : Nat) :
    (r.store p).lineAt? pc = if pc < r.count then some (r.line pc) else none := by
  rw [Prototype.lineAt?_eq, length_lineDeltas_store]
  by_cases hpc : pc < r.count
  · rw [if_pos hpc, if_pos hpc, reached_store h pc hpc, Option.bind_some, lineOfInt?_toNat]
  · rw [if_neg hpc, if_neg hpc]

/-- Differences at both ends of what a byte can hold and just beyond them; the last instruction has
an anchor that it does not need. -/
def atTheEnds : LineRecord where
  firstLine := 200
  count := 5
  line := fun pc => [72, 199, 72, 200, 200].getD pc 0
  anchored := fun pc => pc = 0 || pc = 3 || pc = 4

/-- The instruction between the anchors, one with an anchor, and the first that is not there. -/
theorem lineAt?_store_atTheEnds :
    atTheEnds.Storable ∧ (atTheEnds.store default).lineAt? 2 = some 72 ∧
      (atTheEnds.store default).lineAt? 3 = some 200 ∧
      (atTheEnds.store default).lineAt? 5 = none := by
  have hstorable : atTheEnds.Storable := ⟨by decide, by decide⟩
  have hline := lineAt?_store atTheEnds hstorable default
  exact ⟨hstorable, hline 2, hline 3, hline 5⟩

end LineRecord

end LuaBytecode
