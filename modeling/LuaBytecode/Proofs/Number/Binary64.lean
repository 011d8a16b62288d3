import LuaBytecode.Number.Binary64
import Mathlib.Algebra.Order.Field.Power
import Mathlib.Data.Rat.Cast.Order
import Mathlib.Tactic.FieldSimp
import Mathlib.Tactic.Positivity
import Mathlib.Tactic.Ring

/-!
# The numbers that bit patterns stand for

`Binary64.magnitude` counts a size in units that make every number a whole one.  Here a bit pattern
stands for a rational number, by the formula of its three fields, and the two are tied together.

* `Binary64.toRat` — a normal number has a leading one in front of its fraction, a subnormal number
  has none and the exponent of the smallest normal ones.
* **`size_eq`** — its size is `magnitude` over `unitsPerOne`.
-/

namespace LuaBytecode

namespace Binary64

/-- The size of the number that a bit pattern stands for. -/
def size (x : Binary64) : ℚ :=
  if x.exponentField = 0 then x.fractionField / 2 ^ 52 * 2 ^ (-1022 : ℤ)
  else (1 + x.fractionField / 2 ^ 52) * 2 ^ (x.exponentField - 1023 : ℤ)

/-- The number that a bit pattern stands for, if it is finite. -/
def toRat (x : Binary64) : ℚ := if x.isNegative then -x.size else x.size

theorem cast_one_shiftLeft (k : ℕ) : ((1 <<< k : ℕ) : ℚ) = 2 ^ (k : ℤ) := by
  rw [Nat.shiftLeft_eq, one_mul, Nat.cast_pow, Nat.cast_ofNat, zpow_natCast]

theorem unitsPerOne_pos : 0 < unitsPerOne := by
  have hpos : (0 : ℚ) < unitsPerOne := by
    rw [unitsPerOne, cast_one_shiftLeft]
    positivity
  exact_mod_cast hpos

/-- **The size of a number is counted in units.** -/
theorem size_eq (x : Binary64) : x.size = x.magnitude / unitsPerOne := by
  rw [size, magnitude, significand, gap, unitsPerOne, Nat.cast_mul, cast_one_shiftLeft,
    cast_one_shiftLeft, mul_div_assoc, ← zpow_sub₀ two_ne_zero]
  split_ifs with hsubnormal
  · have hunit : (2 : ℚ) ^ (((x.exponentField - 1 : ℕ) : ℤ) - (1074 : ℕ))
        = 2 ^ (-1022 : ℤ) / 2 ^ 52 := by
      rw [hsubnormal, ← zpow_natCast, ← zpow_sub₀ two_ne_zero]
      rfl
    rw [hunit]
    ring
  · have hunit : (2 : ℚ) ^ (((x.exponentField - 1 : ℕ) : ℤ) - (1074 : ℕ))
        = 2 ^ (x.exponentField - 1023 : ℤ) / 2 ^ 52 := by
      rw [← zpow_natCast, ← zpow_sub₀ two_ne_zero]
      congr 1
      omega
    rw [hunit, Nat.cast_add, cast_one_shiftLeft, zpow_natCast]
    field_simp

theorem size_nonneg (x : Binary64) : 0 ≤ x.size := by
  rw [size_eq]
  positivity

theorem size_eq_zero_iff {x : Binary64} : x.size = 0 ↔ x.magnitude = 0 := by
  rw [size_eq, div_eq_zero_iff, Nat.cast_eq_zero, Nat.cast_eq_zero]
  exact or_iff_left unitsPerOne_pos.ne'

theorem toRat_eq_zero_iff {x : Binary64} : x.toRat = 0 ↔ x.magnitude = 0 := by
  rw [toRat, ← size_eq_zero_iff]
  split_ifs
  · exact neg_eq_zero
  · rfl

/-- A number other than zero is as negative as its sign bit says. -/
theorem toRat_neg_iff {x : Binary64} (h : x.magnitude ≠ 0) : x.toRat < 0 ↔ x.isNegative = true := by
  have hpos : 0 < x.size := lt_of_le_of_ne x.size_nonneg (Ne.symm (mt size_eq_zero_iff.mp h))
  rw [toRat]
  cases x.isNegative with
  | true => exact iff_of_true (neg_lt_zero.mpr hpos) rfl
  | false => exact iff_of_false (not_lt.mpr hpos.le) Bool.false_ne_true

end Binary64

end LuaBytecode
