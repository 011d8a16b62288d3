import LuaBytecode.Number.Decimal
import Mathlib.Algebra.Order.Field.Power
import Mathlib.Algebra.Order.Floor.Semifield
import Mathlib.Data.Int.Log
import Mathlib.Data.Rat.Floor
import Mathlib.Tactic.FieldSimp
import Mathlib.Tactic.Linarith
import Mathlib.Tactic.Positivity
import Mathlib.Tactic.Ring

/-!
# Rounding to significant digits

`Decimal.rounded` picks digits by dividing natural numbers.  Here is what rounding is as a relation
of rational numbers, and that the digits stand for the rounded number.

* `NearestEven` — the whole number nearest to a rational one, the even one of two.
* `RoundsTo` — a number rounded to some significant digits: to the nearest multiple of a power of
  ten that depends on the place of its first digit.
* `nearestEven_roundDiv` — division of natural numbers with `roundDiv` rounds.
* `leadingPlace_eq` — the place of the first digit is the logarithm.
* `toRat_ofGrid` — what digits from the grid stand for, also if they carry into one digit more.
* **`roundsTo_rounded`** — `Decimal.rounded` rounds.
-/

namespace LuaBytecode

/-! ## Whole numbers -/

/-- A whole number nearest to a number; of two such the even one. -/
structure NearestEven (q : ℚ) (n : ℤ) : Prop where
  near : |q - n| ≤ 1 / 2
  even_of_tie : |q - n| = 1 / 2 → Even n

theorem NearestEven.unique {q : ℚ} {m n : ℤ} (hm : NearestEven q m) (hn : NearestEven q n) :
    m = n := by
  have hmnear := abs_le.mp hm.near
  have hnnear := abs_le.mp hn.near
  have hupper : m - n ≤ 1 := by
    have : ((m - n : ℤ) : ℚ) ≤ (1 : ℤ) := by push_cast; linarith
    exact_mod_cast this
  have hlower : n - m ≤ 1 := by
    have : ((n - m : ℤ) : ℚ) ≤ (1 : ℤ) := by push_cast; linarith
    exact_mod_cast this
  -- two neighbours are both at the distance of one half, and one of them is odd
  have hneighbours : ∀ {i j : ℤ}, NearestEven q i → NearestEven q j → i ≠ j + 1 := by
    rintro i j hi hj rfl
    have hinear := abs_le.mp hi.near
    have hjnear := abs_le.mp hj.near
    push_cast at hinear
    have hi' : q - (j + 1 : ℤ) = -(1 / 2) := by push_cast; linarith
    have hj' : q - j = 1 / 2 := by linarith
    have hieven := hi.even_of_tie (by rw [hi']; norm_num [abs_of_pos])
    have hjeven := hj.even_of_tie (by rw [hj']; norm_num [abs_of_pos])
    exact Int.not_even_iff_odd.mpr hjeven.add_one hieven
  have hmn := hneighbours hm hn
  have hnm := hneighbours hn hm
  omega

theorem NearestEven.neg {q : ℚ} {n : ℤ} (h : NearestEven q n) : NearestEven (-q) (-n) := by
  have hdistance : |-q - (-n : ℤ)| = |q - n| := by
    rw [Int.cast_neg, ← abs_neg]
    congr 1
    ring
  exact ⟨hdistance ▸ h.near, fun htie => (h.even_of_tie (hdistance ▸ htie)).neg⟩

/-- A whole number at less than one half is nearest. -/
theorem nearestEven_of_lt {q : ℚ} {n : ℤ} (h : |q - n| < 1 / 2) : NearestEven q n where
  near := h.le
  even_of_tie := fun htie => absurd htie h.ne

/-- What is nearest to ten times a number is nearest to the number, if it is ten times as much. -/
theorem NearestEven.of_tenfold {q : ℚ} {n : ℤ} (h : NearestEven (10 * q) (10 * n : ℤ)) :
    NearestEven q n := by
  have hnear := abs_le.mp h.near
  push_cast at hnear
  exact nearestEven_of_lt (abs_lt.mpr ⟨by linarith, by linarith⟩)

/-- What is at least a whole number is not rounded below it. -/
theorem NearestEven.le_of_le {q : ℚ} {m n : ℤ} (h : NearestEven q n) (hm : (m : ℚ) ≤ q) :
    m ≤ n := by
  have hnear := abs_le.mp h.near
  have hlt : ((m - n : ℤ) : ℚ) < (1 : ℤ) := by push_cast; linarith
  have : m - n < 1 := by exact_mod_cast hlt
  omega

theorem NearestEven.le_of_ge {q : ℚ} {m n : ℤ} (h : NearestEven q n) (hm : q ≤ m) : n ≤ m := by
  have hnear := abs_le.mp h.near
  have hlt : ((n - m : ℤ) : ℚ) < (1 : ℤ) := by push_cast; linarith
  have : n - m < 1 := by exact_mod_cast hlt
  omega

/-- **Dividing and looking at the remainder rounds.** -/
theorem nearestEven_roundDiv (num : ℕ) {den : ℕ} (hden : 0 < den) :
    NearestEven ((num : ℚ) / den) (roundDiv .toEven num den : ℕ) := by
  have hpos : (0 : ℚ) < den := by exact_mod_cast hden
  have hsplit : (num : ℚ) / den = (num / den : ℕ) + ((num % den : ℕ) : ℚ) / den := by
    have hnum : (num : ℚ) = den * (num / den : ℕ) + (num % den : ℕ) := by
      exact_mod_cast (Nat.div_add_mod num den).symm
    rw [hnum]
    field_simp
  have hrest : ((num % den : ℕ) : ℚ) < den := by exact_mod_cast Nat.mod_lt num hden
  have hrest0 : (0 : ℚ) ≤ ((num % den : ℕ) : ℚ) / den := by positivity
  have hrest1 : ((num % den : ℕ) : ℚ) / den < 1 := by rwa [div_lt_one hpos]
  rw [hsplit]
  unfold roundDiv
  generalize num / den = whole
  generalize num % den = rest at *
  dsimp only
  split_ifs with hless hmore heven
  · have hhalf : (rest : ℚ) / den < 1 / 2 := by
      rw [div_lt_div_iff₀ hpos two_pos]
      exact_mod_cast (by omega : rest * 2 < 1 * den)
    refine nearestEven_of_lt (abs_lt.mpr ⟨?_, ?_⟩) <;> push_cast <;> linarith
  · have hhalf : 1 / 2 < (rest : ℚ) / den := by
      rw [div_lt_div_iff₀ two_pos hpos]
      exact_mod_cast (by omega : 1 * den < rest * 2)
    refine nearestEven_of_lt (abs_lt.mpr ⟨?_, ?_⟩) <;> push_cast <;> linarith
  all_goals
    have hhalf : (rest : ℚ) / den = 1 / 2 := by
      rw [div_eq_div_iff hpos.ne' two_ne_zero]
      exact_mod_cast (by omega : rest * 2 = 1 * den)
    rw [hhalf]
    refine ⟨abs_le.mpr ⟨?_, ?_⟩, fun _ => ?_⟩
    · push_cast; linarith
    · push_cast; linarith
  · exact_mod_cast Nat.even_iff.mpr heven
  · exact_mod_cast Nat.even_iff.mpr (by omega : (whole + 1) % 2 = 0)

/-! ## The place of the first digit -/

theorem digitCount_eq (n : ℕ) : digitCount n = Nat.log 10 n + 1 := by
  induction n using Nat.strongRecOn with
  | ind n ih =>
      rw [digitCount]
      split_ifs with hn
      · rw [Nat.log_of_lt hn]
      · rw [ih (n / 10) (by omega), Nat.log_div_base, Nat.sub_add_cancel]
        exact Nat.log_pos (by decide) (by omega)

/-- The logarithm of a number is known by the two powers around it. -/
theorem log_eq_of_le_of_lt {v : ℚ} {place : ℤ} (hle : 10 ^ place ≤ v) (hlt : v < 10 ^ (place + 1)) :
    Int.log 10 v = place := by
  have hpow : (0 : ℚ) < 10 ^ place := by positivity
  have hv : 0 < v := lt_of_lt_of_le hpow hle
  have hlower : place ≤ Int.log 10 v :=
    (Int.zpow_le_iff_le_log (by decide) hv).mp (by exact_mod_cast hle)
  have hupper : Int.log 10 v < place + 1 :=
    (Int.lt_zpow_iff_log_lt (by decide) hv).mp (by exact_mod_cast hlt)
  omega

namespace Decimal

/-- **The place of the first digit of a fraction is its logarithm.** -/
theorem leadingPlace_eq {num den : ℕ} (hnum : 0 < num) (hden : 0 < den) :
    leadingPlace num den = Int.log 10 ((num : ℚ) / den) := by
  have hposnum : (0 : ℚ) < num := by exact_mod_cast hnum
  have hposden : (0 : ℚ) < den := by exact_mod_cast hden
  rw [leadingPlace]
  split_ifs with hwhole
  · have hone : (1 : ℚ) ≤ num / den := by
      rw [le_div_iff₀ hposden, one_mul]
      exact_mod_cast hwhole
    rw [Int.log_of_one_le_right 10 hone, Nat.floor_div_eq_div, digitCount_eq]
    push_cast
    ring
  · have hquotient : (den - 1) / num ≠ 0 := by
      rw [Nat.div_ne_zero_iff]
      omega
    have hbelow := Nat.pow_log_le_self 10 hquotient
    have habove := Nat.lt_pow_succ_log_self (by decide : 1 < 10) ((den - 1) / num)
    rw [digitCount_eq]
    generalize Nat.log 10 ((den - 1) / num) = places at hbelow habove
    have hlower : den ≤ num * 10 ^ (places + 1) := by
      have := Nat.lt_mul_of_div_lt habove hnum
      rw [Nat.mul_comm]
      exact Nat.le_of_pred_lt this
    have hupper : num * 10 ^ places < den := by
      have := (Nat.le_div_iff_mul_le hnum).mp hbelow
      rw [Nat.mul_comm]
      omega
    refine (log_eq_of_le_of_lt ?_ ?_).symm
    · rw [zpow_neg, zpow_natCast, le_div_iff₀ hposden, inv_mul_le_iff₀ (by positivity), mul_comm]
      exact_mod_cast hlower
    · rw [neg_add_eq_sub, ← neg_sub, zpow_neg, div_lt_iff₀ hposden, ← div_eq_inv_mul,
        lt_div_iff₀ (by positivity)]
      push_cast
      rw [add_sub_cancel_right, zpow_natCast]
      exact_mod_cast hupper

/-- Scaling a fraction multiplies it by a power of ten. -/
theorem scale_eq (num : ℕ) {den : ℕ} (hden : 0 < den) (places : ℤ) :
    0 < (scale num den places).2.1 ∧
    ((scale num den places).1 : ℚ) / (scale num den places).2.1 = num / den * 10 ^ places := by
  have hposden : (0 : ℚ) < den := by exact_mod_cast hden
  rw [scale]
  split_ifs with hplaces
  · refine ⟨hden, ?_⟩
    conv_rhs => rw [← Int.toNat_of_nonneg hplaces, zpow_natCast]
    push_cast [Nat.pow_eq]
    ring
  · have hneg : places = -((-places).toNat : ℤ) := by omega
    refine ⟨Nat.mul_pos hden (Nat.pow_pos (by decide)), ?_⟩
    conv_rhs => rw [hneg, zpow_neg, zpow_natCast]
    push_cast [Nat.pow_eq]
    field_simp

/-! ## Digits from the grid -/

/-- The number that digits and the place of the first one stand for. -/
def toRat (d : Decimal) : ℚ := d.digits * 10 ^ (d.exponent - Nat.log 10 d.digits)

theorem log_toRat {d : Decimal} (hd : d.digits ≠ 0) : Int.log 10 d.toRat = d.exponent := by
  have hbelow : ((10 ^ Nat.log 10 d.digits : ℕ) : ℚ) ≤ d.digits := by
    exact_mod_cast Nat.pow_log_le_self 10 hd
  have habove : (d.digits : ℚ) < (10 ^ (Nat.log 10 d.digits + 1) : ℕ) := by
    exact_mod_cast Nat.lt_pow_succ_log_self (by decide : 1 < 10) d.digits
  push_cast at hbelow habove
  rw [← zpow_natCast] at hbelow habove
  have hscale : (0 : ℚ) < 10 ^ (d.exponent - Nat.log 10 d.digits) := by positivity
  refine log_eq_of_le_of_lt ?_ ?_
  · calc (10 : ℚ) ^ d.exponent
        = 10 ^ (Nat.log 10 d.digits : ℤ) * 10 ^ (d.exponent - Nat.log 10 d.digits) := by
          rw [← zpow_add₀ (by norm_num), add_sub_cancel]
      _ ≤ d.toRat := mul_le_mul_of_nonneg_right hbelow hscale.le
  · calc d.toRat
        < 10 ^ ((Nat.log 10 d.digits + 1 : ℕ) : ℤ) * 10 ^ (d.exponent - Nat.log 10 d.digits) :=
          mul_lt_mul_of_pos_right habove hscale
      _ = 10 ^ (d.exponent + 1) := by
          rw [← zpow_add₀ (by norm_num)]
          congr 1
          push_cast
          ring

theorem ne_zero_of_mod_ten {n : ℕ} (hlast : n % 10 ≠ 0) : n ≠ 0 := by
  rintro rfl
  exact hlast rfl

/-- The zeros that are stripped are a power of ten. -/
theorem exists_stripZeros {n : ℕ} (hn : n ≠ 0) :
    ∃ zeros, n = stripZeros n * 10 ^ zeros ∧ stripZeros n % 10 ≠ 0 := by
  induction n using Nat.strongRecOn with
  | ind n ih =>
      rw [stripZeros]
      split_ifs with hzero
      · obtain ⟨zeros, hrest, hlast⟩ := ih (n / 10) (by omega) (by omega)
        refine ⟨zeros + 1, ?_, hlast⟩
        rw [pow_succ, ← mul_assoc, ← hrest]
        omega
      · exact ⟨0, by rw [pow_zero, mul_one], fun hlast => hzero ⟨hn, hlast⟩⟩

theorem log_mul_pow {n : ℕ} (hn : n ≠ 0) (k : ℕ) :
    Nat.log 10 (n * 10 ^ k) = Nat.log 10 n + k := by
  induction k with
  | zero => rw [pow_zero, mul_one, Nat.add_zero]
  | succ k ih =>
      rw [pow_succ, ← mul_assoc, Nat.log_mul_base (by decide) (by positivity), ih, Nat.add_assoc]

section Grid

variable {precision digits : ℕ} {place : ℤ}

theorem ne_zero_of_grid (hlower : 10 ^ (precision - 1) ≤ digits) : digits ≠ 0 :=
  Nat.ne_of_gt (lt_of_lt_of_le (Nat.pow_pos (by decide)) hlower)

/-- The digits of a grid are as many as its precision, or they are one more: then it is a power of
ten. -/
theorem log_of_grid (hprecision : 0 < precision) (hlower : 10 ^ (precision - 1) ≤ digits)
    (hupper : digits ≤ 10 ^ precision) :
    Nat.log 10 digits = if digits < 10 ^ precision then precision - 1 else precision := by
  split_ifs with hcarry
  · exact Nat.log_eq_of_pow_le_of_lt_pow hlower (by rwa [Nat.sub_add_cancel hprecision])
  · rw [Nat.le_antisymm hupper (Nat.le_of_not_lt hcarry)]
    exact Nat.log_pow (by decide) precision

/-- Whether the digits carry or not, the exponent is the place of the first. -/
theorem exponent_ofGrid (hprecision : 0 < precision) (hlower : 10 ^ (precision - 1) ≤ digits)
    (hupper : digits ≤ 10 ^ precision) :
    (ofGrid precision place digits).exponent = place + 1 - precision + Nat.log 10 digits := by
  rw [log_of_grid hprecision hlower hupper]
  show (if digits < 10 ^ precision then place else place + 1) = _
  split_ifs
  · omega
  · omega

/-- **Digits from the grid stand for as many of its units.** -/
theorem toRat_ofGrid (hprecision : 0 < precision) (hlower : 10 ^ (precision - 1) ≤ digits)
    (hupper : digits ≤ 10 ^ precision) :
    (ofGrid precision place digits).toRat = digits * 10 ^ (place + 1 - precision) := by
  obtain ⟨zeros, hstrip, hlast⟩ := exists_stripZeros (ne_zero_of_grid hlower)
  have hkept : stripZeros digits ≠ 0 := ne_zero_of_mod_ten hlast
  have hlog : Nat.log 10 digits = Nat.log 10 (stripZeros digits) + zeros := by
    conv_lhs => rw [hstrip, log_mul_pow hkept]
  have hexponent : (ofGrid precision place digits).exponent = _ :=
    exponent_ofGrid hprecision hlower hupper
  have hkeep : (ofGrid precision place digits).digits = stripZeros digits := rfl
  rw [toRat, hkeep, hexponent, hlog]
  conv_rhs => rw [hstrip]
  push_cast
  rw [mul_assoc, ← zpow_natCast, ← zpow_add₀ (by norm_num)]
  congr 2
  ring

end Grid

end Decimal

/-! ## Rounding -/

/-- The unit of the digits that are kept of a number: a power of ten so large that the number has
that many digits in front of it. -/
def digitUnit (precision : ℕ) (v : ℚ) : ℚ := 10 ^ (Int.log 10 |v| + 1 - precision)

/-- A number rounded to some significant digits: to the nearest multiple of the unit of its last
digit. -/
def RoundsTo (precision : ℕ) (v r : ℚ) : Prop :=
  ∃ n : ℤ, NearestEven (v / digitUnit precision v) n ∧ r = n * digitUnit precision v

theorem RoundsTo.neg {precision : ℕ} {v r : ℚ} (h : RoundsTo precision v r) :
    RoundsTo precision (-v) (-r) := by
  obtain ⟨n, hn, rfl⟩ := h
  have hunit : digitUnit precision (-v) = digitUnit precision v := by
    rw [digitUnit, abs_neg, ← digitUnit]
  refine ⟨-n, ?_, ?_⟩
  · rw [hunit, neg_div]
    exact hn.neg
  · rw [hunit, Int.cast_neg, neg_mul]

theorem RoundsTo.unique {precision : ℕ} {v r s : ℚ} (hr : RoundsTo precision v r)
    (hs : RoundsTo precision v s) : r = s := by
  obtain ⟨m, hm, rfl⟩ := hr
  obtain ⟨n, hn, rfl⟩ := hs
  rw [hm.unique hn]

namespace Decimal

variable {precision num den : ℕ}

/-- The digits that are picked from the grid. -/
def gridDigits (precision num den : ℕ) : ℕ :=
  let scaled := scale num den (precision - 1 - leadingPlace num den)
  roundDiv .toEven scaled.1 scaled.2.1

theorem rounded_eq (precision num den : ℕ) :
    rounded precision num den
      = ofGrid precision (leadingPlace num den) (gridDigits precision num den) := rfl

theorem nearestEven_gridDigits (hnum : 0 < num) (hden : 0 < den) :
    NearestEven ((num : ℚ) / den / digitUnit precision ((num : ℚ) / den))
      (gridDigits precision num den : ℕ) := by
  obtain ⟨hpos, hscaled⟩ := scale_eq num hden (precision - 1 - leadingPlace num den)
  have hsize : (0 : ℚ) < num / den := by positivity
  have hunit : (num : ℚ) / den / digitUnit precision ((num : ℚ) / den)
      = num / den * 10 ^ ((precision : ℤ) - 1 - leadingPlace num den) := by
    rw [digitUnit, abs_of_pos hsize, ← leadingPlace_eq hnum hden, div_eq_mul_inv _ (10 ^ _),
      ← zpow_neg]
    congr 2
    ring
  rw [hunit, ← hscaled]
  exact nearestEven_roundDiv _ hpos

/-- A number has as many digits in front of its unit as are kept. -/
theorem le_div_digitUnit (hprecision : 0 < precision) {v : ℚ} (hv : 0 < v) :
    ((10 ^ (precision - 1) : ℕ) : ℚ) ≤ v / digitUnit precision v ∧
    v / digitUnit precision v ≤ (10 ^ precision : ℕ) := by
  have hunit : 0 < digitUnit precision v := by unfold digitUnit; positivity
  have hlower := Int.zpow_log_le_self (by decide : 1 < 10) hv
  have hupper := (Int.lt_zpow_succ_log_self (by decide : 1 < 10) v).le
  push_cast at hlower hupper
  rw [le_div_iff₀ hunit, div_le_iff₀ hunit, digitUnit, abs_of_pos hv]
  push_cast
  rw [← zpow_natCast, ← zpow_natCast, ← zpow_add₀ (by norm_num), ← zpow_add₀ (by norm_num)]
  refine ⟨le_of_eq_of_le ?_ hlower, le_of_le_of_eq hupper ?_⟩
  · congr 1
    omega
  · congr 1
    omega

theorem gridDigits_bounds (hprecision : 0 < precision) (hnum : 0 < num) (hden : 0 < den) :
    10 ^ (precision - 1) ≤ gridDigits precision num den ∧
      gridDigits precision num den ≤ 10 ^ precision := by
  have hsize : (0 : ℚ) < num / den := by positivity
  have hnearest : NearestEven _ (gridDigits precision num den : ℕ) :=
    nearestEven_gridDigits hnum hden
  obtain ⟨hlower, hupper⟩ := le_div_digitUnit hprecision hsize
  constructor
  · exact_mod_cast hnearest.le_of_le (m := (10 ^ (precision - 1) : ℕ)) (by exact_mod_cast hlower)
  · exact_mod_cast hnearest.le_of_ge (m := (10 ^ precision : ℕ)) (by exact_mod_cast hupper)

/-- **Picking digits from the grid rounds to significant digits.** -/
theorem roundsTo_rounded (hprecision : 0 < precision) (hnum : 0 < num) (hden : 0 < den) :
    RoundsTo precision ((num : ℚ) / den) (rounded precision num den).toRat := by
  have hsize : (0 : ℚ) < num / den := by positivity
  obtain ⟨hlower, hupper⟩ := gridDigits_bounds hprecision hnum hden
  refine ⟨_, nearestEven_gridDigits hnum hden, ?_⟩
  rw [rounded_eq, toRat_ofGrid hprecision hlower hupper, digitUnit, abs_of_pos hsize,
    ← leadingPlace_eq hnum hden]
  rfl

theorem digits_rounded (hprecision : 0 < precision) (hnum : 0 < num) (hden : 0 < den) :
    (rounded precision num den).digits % 10 ≠ 0 := by
  obtain ⟨hlower, -⟩ := gridDigits_bounds hprecision hnum hden
  obtain ⟨zeros, -, hlast⟩ := exists_stripZeros (ne_zero_of_grid hlower)
  exact hlast

end Decimal

end LuaBytecode
