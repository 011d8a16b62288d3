import LuaBytecode.Proofs.Front
import LuaBytecode.Prototype.Basic
import Mathlib.Data.List.Basic

/-!
# The names of the variables that are alive

Lua finds the name of a variable by a loop over the table: it stops at the first range that starts
later, counts down at each range that has not ended, and gives the name where the count comes to
zero.  `localName?` takes the ranges apart first and then picks one.  They agree on every table,
also where the ranges are in no order, overlap, or end before they start.

In a table in order of the starts nothing behind the place where the loop stops has started, so what
the loop counts are all variables that are alive.

* `countDown` — Lua's loop.
* `countDown_succ` — it picks among the ranges in front of the first that starts later;
  `countDown_of_nonpos` — a count that begins at zero or below never comes to zero.
* `alive_eq` — in a table in order these are all that are alive.
* **`localName?_spec`** — the search is the loop, and finds the variable of that number among those
  alive.
-/

namespace LuaBytecode

/-- The instruction is in the range of the variable. -/
def LocalVar.AliveAt (var : LocalVar) (pc : UInt32) : Prop := var.startPc ≤ pc ∧ pc < var.endPc

instance (var : LocalVar) (pc : UInt32) : Decidable (var.AliveAt pc) :=
  inferInstanceAs (Decidable (_ ∧ _))

namespace Prototype

/-- Lua's loop over the table of local variables, with what is left of the count. -/
def countDown (pc : UInt32) : (count : Int) → List LocalVar → Option Bytes
  | _, [] => none
  | count, var :: vars =>
      if pc < var.startPc then none
      else if pc < var.endPc then
        if count - 1 = 0 then some var.name else countDown pc (count - 1) vars
      else countDown pc count vars

/-- The ranges are in order of their starts; several may start at one instruction. -/
def LocalsOrdered (p : Prototype) : Prop := p.localVars.Pairwise (·.startPc ≤ ·.startPc)

instance (p : Prototype) : Decidable p.LocalsOrdered :=
  inferInstanceAs (Decidable (p.localVars.Pairwise (·.startPc ≤ ·.startPc)))

/-- All variables alive at an instruction, in the order of the table. -/
def alive (p : Prototype) (pc : UInt32) : List LocalVar :=
  p.localVars.filter fun var => var.AliveAt pc

/-! ## The loop -/

section Loop

variable {pc : UInt32}

/-- **The loop picks among the ranges that have not ended, in front of the first that starts
later.** -/
theorem countDown_succ (vars : List LocalVar) : ∀ n : Nat,
    countDown pc ((n + 1 : Nat) : Int) vars
      = ((vars.takeWhile (·.startPc ≤ pc)).filter (pc < ·.endPc))[n]?.map (·.name) := by
  induction vars with
  | nil => exact fun _ => rfl
  | cons var vars ih =>
      intro n
      rw [countDown]
      by_cases hlater : pc < var.startPc
      · rw [if_pos hlater, List.takeWhile_cons_of_neg (by simpa using hlater)]
        rfl
      rw [if_neg hlater, List.takeWhile_cons_of_pos (by simpa using hlater)]
      by_cases hended : pc < var.endPc
      · have hcount : ((n + 1 : Nat) : Int) - 1 = n := by omega
        rw [if_pos hended, List.filter_cons_of_pos (by simpa using hended), hcount]
        cases n with
        | zero => rfl
        | succ n => rw [if_neg (by omega), ih, List.getElem?_cons_succ]
      · rw [if_neg hended, List.filter_cons_of_neg (by simpa using hended), ih]

/-- The count only falls, so one that is not above zero never comes there. -/
theorem countDown_of_nonpos (vars : List LocalVar) :
    ∀ {count : Int}, count ≤ 0 → countDown pc count vars = none := by
  induction vars with
  | nil => exact fun _ => rfl
  | cons var vars ih =>
      intro count hcount
      rw [countDown, if_neg (show ¬ count - 1 = 0 by omega), ih hcount, ih (by omega), ite_self,
        ite_self]

end Loop

variable (p : Prototype) (pc : UInt32)

theorem localName?_zero : p.localName? 0 pc = none := rfl

theorem localName?_succ (n : Nat) : p.localName? (n + 1) pc
    = ((p.localVars.takeWhile (·.startPc ≤ pc)).filter (pc < ·.endPc))[n]?.map (·.name) := rfl

theorem localName?_eq_countDown (n : Nat) :
    p.localName? n pc = countDown pc n p.localVars := by
  cases n with
  | zero => exact (countDown_of_nonpos p.localVars (Int.le_refl 0)).symm
  | succ n => rw [localName?_succ, countDown_succ]

/-! ## Tables in order -/

variable {p}

/-- Ranges that start by an instruction are at the front of a table in order, so none that is alive
lies behind the place where the loop stops. -/
theorem alive_eq (h : p.LocalsOrdered) :
    p.alive pc = (p.localVars.takeWhile (·.startPc ≤ pc)).filter (pc < ·.endPc) := by
  have hfront : p.localVars.Pairwise fun a b =>
      decide (b.startPc ≤ pc) = true → decide (a.startPc ≤ pc) = true := by
    refine h.imp fun {a b} hab hb => ?_
    rw [decide_eq_true_eq] at hb ⊢
    exact UInt32.le_trans hab hb
  rw [takeWhile_eq_filter hfront, List.filter_filter, alive]
  refine List.filter_congr fun var _ => ?_
  rw [Bool.and_comm]
  exact Bool.decide_and (var.startPc ≤ pc) (pc < var.endPc)

/-- **The search for a name is Lua's loop**, on every table.  **In a table in order of the starts it
finds the variable of that number among all that are alive**, and nothing exactly if the number is
zero or there are fewer. -/
theorem localName?_spec (p : Prototype) :
    (∀ (n : Nat) (pc : UInt32), p.localName? n pc = countDown pc n p.localVars) ∧
    (∀ pc : UInt32, p.localName? 0 pc = none) ∧
    (p.LocalsOrdered → ∀ pc : UInt32,
      (∀ (n : Nat) (h : n < (p.alive pc).length),
        p.localName? (n + 1) pc = some (p.alive pc)[n].name) ∧
      ∀ n : Nat, p.localName? n pc = none ↔ n = 0 ∨ (p.alive pc).length < n) := by
  refine ⟨fun n pc => p.localName?_eq_countDown pc n, fun pc => p.localName?_zero pc,
    fun hordered pc => ⟨fun n h => ?_, fun n => ?_⟩⟩
  · rw [localName?_succ, ← alive_eq pc hordered, List.getElem?_eq_getElem h, Option.map_some]
  · cases n with
    | zero => simp [localName?_zero]
    | succ n =>
        rw [localName?_succ, ← alive_eq pc hordered, Option.map_eq_none_iff,
          List.getElem?_eq_none_iff]
        omega

/-- Ranges that overlap, an empty one, one that ends before it starts, and one that starts late. -/
def overlappingLocals : Prototype :=
  { (default : Prototype) with
    localVars := [⟨[0x61], 0, 10⟩, ⟨[0x62], 2, 2⟩, ⟨[0x63], 3, 1⟩, ⟨[0x64], 3, 9⟩, ⟨[0x65], 6, 8⟩] }

/-- Two of them are alive at the fifth instruction, and the last is a third at the seventh. -/
theorem localName?_spec_overlapping :
    overlappingLocals.LocalsOrdered ∧
    (overlappingLocals.alive 4).length = 2 ∧
    overlappingLocals.localName? 2 4 = some [0x64] ∧ overlappingLocals.localName? 3 4 = none ∧
    (overlappingLocals.alive 6).length = 3 ∧
    overlappingLocals.localName? 3 6 = some [0x65] ∧
    overlappingLocals.localName? 3 6 = countDown 6 3 overlappingLocals.localVars := by
  have hordered : overlappingLocals.LocalsOrdered := by decide
  obtain ⟨hloop, -, halive⟩ := localName?_spec overlappingLocals
  obtain ⟨hfound, hnone⟩ := halive hordered 4
  obtain ⟨hlast, -⟩ := halive hordered 6
  exact ⟨hordered, by decide, hfound 1 (by decide), (hnone 3).mpr (by decide), by decide,
    hlast 2 (by decide), hloop 3 6⟩

end Prototype

end LuaBytecode
