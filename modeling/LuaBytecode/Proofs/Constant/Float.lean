import LuaBytecode.Proofs.Number.General
import LuaBytecode.Proofs.Number.Numeral
import LuaBytecode.Proofs.Text.Numeral

/-!
# Floats in a listing

The text of a float is a numeral.  Here is which number it denotes and which form it has, for every
finite float, and that no float and no integer of a listing are written alike.

* `DecimalNumeral.IsGeneral` — the form of a numeral with significant digits: when it has an
  exponent part, and what its fraction ends in.
* `Layout.numeral` — the numeral that a layout writes; `text_numeral`, `value_numeral` and
  `isGeneral_numeral` are its text, its number and its form.
* `display_ne` — a float has a character that no integer has.
* **`Constant.display_float`** — a listing writes a float rounded to fourteen digits, as such a
  numeral.
-/

namespace LuaBytecode

/-! ## Whole numbers -/

/-- A whole number among the rational ones. -/
def IsWhole (q : ℚ) : Prop := ∃ z : ℤ, q = z

theorem isWhole_signed {isNegative : Bool} {q : ℚ} : IsWhole (signed isNegative q) ↔ IsWhole q := by
  have hneg : ∀ {q : ℚ}, IsWhole q → IsWhole (-q) := fun ⟨z, hz⟩ => ⟨-z, by rw [hz, Int.cast_neg]⟩
  cases isNegative with
  | true => exact ⟨fun h => neg_neg q ▸ hneg h, hneg⟩
  | false => exact Iff.rfl

theorem Decimal.toRat_pos {d : Decimal} (hd : d.digits ≠ 0) : 0 < d.toRat := by
  have hpos : (0 : ℚ) < d.digits := by exact_mod_cast Nat.pos_of_ne_zero hd
  unfold toRat
  positivity

/-- A number without zeros at its end is whole if its last digit is in front of the point. -/
theorem Decimal.isWhole_toRat_iff {d : Decimal} (hlast : d.digits % 10 ≠ 0) :
    IsWhole d.toRat ↔ Nat.log 10 d.digits ≤ d.exponent := by
  rw [toRat]
  constructor
  · rintro ⟨z, hz⟩
    by_contra hlt
    obtain ⟨places, hplaces⟩ : ∃ places : ℕ, d.exponent - Nat.log 10 d.digits = -(places + 1 : ℕ) :=
      ⟨(Nat.log 10 d.digits - d.exponent - 1).toNat, by omega⟩
    rw [hplaces, zpow_neg, zpow_natCast, ← div_eq_mul_inv, div_eq_iff (by positivity)] at hz
    have hdigits : (d.digits : ℤ) = z * 10 ^ places * 10 := by
      rw [mul_assoc, ← pow_succ]
      exact_mod_cast hz
    omega
  · intro hle
    refine ⟨d.digits * 10 ^ (d.exponent - Nat.log 10 d.digits).toNat, ?_⟩
    conv_lhs => rw [← Int.toNat_of_nonneg (sub_nonneg.mpr hle), zpow_natCast]
    push_cast
    rfl

/-! ## The form of a numeral -/

namespace DecimalNumeral

/-- The form of a numeral with significant digits. -/
structure IsGeneral (precision : ℕ) (n : DecimalNumeral) : Prop where
  /-- Small numbers, and large ones, have an exponent part. -/
  hasExponent_iff : n.exponent?.isSome = true ↔
    Int.log 10 |n.value| < -4 ∨ precision ≤ Int.log 10 |n.value|
  /-- With an exponent part, one digit is in front of the point. -/
  length_whole : n.exponent?.isSome = true → n.whole.length = 1
  /-- An exponent part has two digits at least. -/
  two_le_length : ∀ part ∈ n.exponent?, 2 ≤ part.digits.length
  /-- Without an exponent part, a whole number ends in a point and a zero. -/
  fraction_of_isWhole : n.exponent? = none → IsWhole n.value → n.fraction = ['0']
  /-- Otherwise a fraction does not end in a zero. -/
  getLast?_fraction :
    ¬(n.exponent? = none ∧ IsWhole n.value) → n.fraction.getLast? ≠ some '0'

end DecimalNumeral

/-! ## The numeral that a layout writes -/

namespace Layout

/-- The exponent part for an exponent. -/
def exponentPart (layout : Layout) (exponent : ℤ) : ExponentPart where
  isNegative := exponent < 0
  digits := zeros (layout.exponentWidth - (digitsOf exponent.natAbs).length) ++
    digitsOf exponent.natAbs
  isDigit := fun c hc => (List.mem_append.mp hc).elim
    (fun hzero => by rw [List.eq_of_mem_replicate hzero]; rfl) isDigit_of_mem_digitsOf

theorem value_exponentPart (layout : Layout) (exponent : ℤ) :
    (layout.exponentPart exponent).value = exponent := by
  have hsize : Nat.ofDigitChars 10 (layout.exponentPart exponent).digits 0 = exponent.natAbs := by
    dsimp only [exponentPart, zeros]
    rw [Nat.ofDigitChars_append, Nat.ofDigitChars_replicate_zero, Nat.mul_zero,
      ofDigitChars_digitsOf]
  have hsign : (layout.exponentPart exponent).isNegative = decide (exponent < 0) := rfl
  rw [ExponentPart.value, hsize, hsign]
  simp only [decide_eq_true_eq]
  split_ifs <;> omega

theorem le_length_exponentPart (layout : Layout) (exponent : ℤ) :
    layout.exponentWidth ≤ (layout.exponentPart exponent).digits.length := by
  dsimp only [exponentPart]
  rw [List.length_append, zeros, List.length_replicate]
  omega

/-- The numeral that a layout writes. -/
def numeral (layout : Layout) (isNegative : Bool) (d : Decimal) : DecimalNumeral :=
  let last := Nat.log 10 d.digits
  if layout.lowest ≤ d.exponent ∧ d.exponent ≤ layout.highest then
    if last ≤ d.exponent then
      .pointed isNegative 1 (d.digits * 10 ^ (d.exponent - last).toNat * 10) none
    else .pointed isNegative (last - d.exponent).toNat d.digits none
  else .pointed isNegative last d.digits (some (layout.exponentPart d.exponent))

variable {layout : Layout} {isNegative : Bool} {d : Decimal}

theorem numeral_of_le (hplain : layout.lowest ≤ d.exponent ∧ d.exponent ≤ layout.highest)
    (hle : Nat.log 10 d.digits ≤ d.exponent) :
    layout.numeral isNegative d = .pointed isNegative 1
      (d.digits * 10 ^ (d.exponent - Nat.log 10 d.digits).toNat * 10) none := by
  rw [numeral, if_pos hplain, if_pos hle]

theorem numeral_of_lt (hplain : layout.lowest ≤ d.exponent ∧ d.exponent ≤ layout.highest)
    (hlt : d.exponent < Nat.log 10 d.digits) :
    layout.numeral isNegative d
      = .pointed isNegative (Nat.log 10 d.digits - d.exponent).toNat d.digits none := by
  rw [numeral, if_pos hplain, if_neg (not_le.mpr hlt)]

theorem numeral_of_not (hplain : ¬(layout.lowest ≤ d.exponent ∧ d.exponent ≤ layout.highest)) :
    layout.numeral isNegative d = .pointed isNegative (Nat.log 10 d.digits) d.digits
      (some (layout.exponentPart d.exponent)) := by
  rw [numeral, if_neg hplain]

theorem isNegative_numeral : (layout.numeral isNegative d).isNegative = isNegative := by
  rw [numeral]
  split_ifs
  · rfl
  · rfl
  · rfl

theorem text_exponentPart (hplus : layout.plusSign = true) (exponent : ℤ) :
    (layout.exponentPart exponent).text = layout.exponentText exponent := by
  rw [ExponentPart.text, exponentText, hplus]
  dsimp only [exponentPart]
  by_cases hneg : exponent < 0
  · simp [hneg]
  · simp [hneg]

theorem text_numeral (hplus : layout.plusSign = true) (hd : d.digits ≠ 0) :
    (layout.numeral isNegative d).text = General.signText isNegative ++ layout.write d := by
  rw [write]
  by_cases hplain : layout.lowest ≤ d.exponent ∧ d.exponent ≤ layout.highest
  · rw [if_pos hplain, plain_eq hd]
    rcases le_or_gt (Nat.log 10 d.digits : ℤ) d.exponent with hle | hlt
    · have hplaces : (Nat.log 10 d.digits - d.exponent).toNat = 0 := by omega
      rw [numeral_of_le hplain hle, DecimalNumeral.text_pointed, hplaces, if_pos rfl, pointed_zero,
        pointed_one]
      exact List.append_nil _
    · rw [numeral_of_lt hplain hlt, DecimalNumeral.text_pointed, if_neg (by omega),
        Int.toNat_of_nonpos (by omega : d.exponent - Nat.log 10 d.digits ≤ 0), pow_zero, mul_one,
        List.append_nil]
      exact List.append_nil _
  · rw [if_neg hplain, numeral_of_not hplain, DecimalNumeral.text_pointed, scientific_eq _ hd,
      Option.elim_some, text_exponentPart hplus, List.append_assoc]

theorem value_numeral : (layout.numeral isNegative d).value = signed isNegative d.toRat := by
  rw [Decimal.toRat]
  by_cases hplain : layout.lowest ≤ d.exponent ∧ d.exponent ≤ layout.highest
  · rcases le_or_gt (Nat.log 10 d.digits : ℤ) d.exponent with hle | hlt
    · have hexponent : d.exponent - Nat.log 10 d.digits
          = ((d.exponent - Nat.log 10 d.digits).toNat : ℤ) := by omega
      have hplace : (Option.elim none 0 ExponentPart.value - (1 : ℕ) : ℤ) = -1 := rfl
      rw [numeral_of_le hplain hle, DecimalNumeral.value_pointed, hplace, zpow_neg_one]
      conv_rhs => rw [hexponent, zpow_natCast]
      push_cast
      rw [mul_inv_cancel_right₀ (by norm_num)]
    · rw [numeral_of_lt hplain hlt, DecimalNumeral.value_pointed]
      congr 3
      show (0 - (Nat.log 10 d.digits - d.exponent).toNat : ℤ) = d.exponent - Nat.log 10 d.digits
      omega
  · rw [numeral_of_not hplain, DecimalNumeral.value_pointed, Option.elim_some,
      value_exponentPart]

/-- **The numeral of digits that do not end in a zero has the form of significant digits.** -/
theorem isGeneral_numeral {precision : ℕ} (hlowest : layout.lowest = -4)
    (hhighest : layout.highest = precision - 1) (hwidth : layout.exponentWidth = 2)
    (hlast : d.digits % 10 ≠ 0) : (layout.numeral isNegative d).IsGeneral precision := by
  have hd : d.digits ≠ 0 := Decimal.ne_zero_of_mod_ten hlast
  have hplace : Int.log 10 |(layout.numeral isNegative d).value| = d.exponent := by
    rw [value_numeral, abs_signed, abs_of_pos (Decimal.toRat_pos hd), Decimal.log_toRat hd]
  have hwhole : IsWhole (layout.numeral isNegative d).value ↔ Nat.log 10 d.digits ≤ d.exponent := by
    rw [value_numeral, isWhole_signed, Decimal.isWhole_toRat_iff hlast]
  by_cases hplain : layout.lowest ≤ d.exponent ∧ d.exponent ≤ layout.highest
  · have hform : ¬(d.exponent < -4 ∨ precision ≤ d.exponent) := by omega
    rw [← hplace] at hform
    rcases le_or_gt (Nat.log 10 d.digits : ℤ) d.exponent with hle | hlt
    · rw [numeral_of_le hplain hle] at *
      exact {
        hasExponent_iff := iff_of_false Bool.false_ne_true hform
        length_whole := nofun
        two_le_length := nofun
        fraction_of_isWhole := fun _ _ => lastDigits_one _
        getLast?_fraction := fun hnot => absurd ⟨rfl, hwhole.mpr hle⟩ hnot }
    · rw [numeral_of_lt hplain hlt] at *
      exact {
        hasExponent_iff := iff_of_false Bool.false_ne_true hform
        length_whole := nofun
        two_le_length := nofun
        fraction_of_isWhole := fun _ h => absurd (hwhole.mp h) (not_le.mpr hlt)
        getLast?_fraction := fun _ => getLast?_lastDigits hlast }
  · have hform : d.exponent < -4 ∨ precision ≤ d.exponent := by omega
    rw [← hplace] at hform
    rw [numeral_of_not hplain] at *
    exact {
      hasExponent_iff := iff_of_true rfl hform
      length_whole := fun _ => by
        dsimp only [DecimalNumeral.pointed]
        rw [digitsOf_first, length_lastDigits]
      two_le_length := by
        intro part hpart
        rw [← Option.some.inj hpart, ← hwidth]
        exact le_length_exponentPart layout d.exponent
      fraction_of_isWhole := nofun
      getLast?_fraction := fun _ => getLast?_lastDigits hlast }

end Layout

/-! ## Floats and integers -/

namespace General

/-- The text of a float has a character that no integer has. -/
theorem exists_mem_ofFloat (precision : ℕ) (x : Binary64) :
    ∃ c ∈ ofFloat precision x, (c == '-' || c.isDigit) = false := by
  have hmark : ∀ text, ∃ c ∈ markFloat text, (c == '-' || c.isDigit) = false := by
    intro text
    rw [markFloat]
    split_ifs with hall
    · exact ⟨'.', by simp, rfl⟩
    · simpa using hall
  rw [ofFloat]
  split_ifs
  · exact ⟨'n', by simp, rfl⟩
  · exact ⟨'i', by simp, rfl⟩
  · exact hmark _
  · exact hmark _

end General

namespace Constant

theorem toList_display_float (x : Binary64) : (Constant.float x).display.toList = displayFloat x :=
  String.toList_ofList

/-- A float, even a whole one, is not written as an integer. -/
theorem display_ne (x : Binary64) (i : Int64) :
    (Constant.float x).display ≠ (Constant.integer i).display := by
  intro h
  obtain ⟨c, hmem, hc⟩ := General.exists_mem_ofFloat floatPrecision x
  rw [← displayFloat_eq, ← toList_display_float, h] at hmem
  rcases of_mem_intText hmem with hdigit | rfl
  · rw [hdigit, Bool.or_true] at hc
    exact Bool.noConfusion hc
  · exact Bool.noConfusion hc

section Finite

variable {x : Binary64} (hx : x.magnitude ≠ 0)

include hx

/-- The size of a float is rounded, and the sign put in front. -/
theorem roundsTo_roundFloat :
    RoundsTo floatPrecision x.toRat (signed x.isNegative (roundFloat x).toRat) := by
  have hsize : RoundsTo floatPrecision x.size (roundFloat x).toRat := by
    rw [Binary64.size_eq]
    exact Decimal.roundsTo_rounded (by decide) (Nat.pos_of_ne_zero hx) Binary64.unitsPerOne_pos
  rw [Binary64.toRat]
  cases x.isNegative with
  | true => exact hsize.neg
  | false => exact hsize

theorem digits_roundFloat : (roundFloat x).digits % 10 ≠ 0 :=
  Decimal.digits_rounded (by decide) (Nat.pos_of_ne_zero hx) Binary64.unitsPerOne_pos

theorem text_float (hfinite : x.isFinite = true) :
    (floatLayout.numeral x.isNegative (roundFloat x)).text = (Constant.float x).display.toList := by
  have hdigits : (roundFloat x).digits ≠ 0 := Decimal.ne_zero_of_mod_ten (digits_roundFloat hx)
  rw [toList_display_float, displayFloat, if_pos hfinite, Layout.writeFinite_eq, if_neg hx,
    Layout.text_numeral rfl hdigits]

end Finite

/-- **A listing writes a float rounded to fourteen significant digits**, as the text with two
roundings, and never as an integer. -/
theorem display_float (x : Binary64) :
    (x.isFinite = true → x.toRat ≠ 0 → ∃ n : DecimalNumeral,
      (∀ m : DecimalNumeral, m.text = (Constant.float x).display.toList ↔ m = n) ∧
      (∀ r : ℚ, RoundsTo 14 x.toRat r ↔ r = n.value) ∧
      (n.isNegative = true ↔ x.toRat < 0) ∧ n.IsGeneral 14) ∧
    (Constant.float x).display = String.ofList (General.ofFloat 14 x) ∧
    ∀ i : Int64, (Constant.float x).display ≠ (Constant.integer i).display := by
  refine ⟨fun hfinite hzero => ?_, ?_, display_ne x⟩
  · have hx : x.magnitude ≠ 0 := mt Binary64.toRat_eq_zero_iff.mpr hzero
    have hrounds := roundsTo_roundFloat hx
    refine ⟨floatLayout.numeral x.isNegative (roundFloat x), fun m => ?_, fun r => ?_, ?_,
      Layout.isGeneral_numeral rfl rfl rfl (digits_roundFloat hx)⟩
    · rw [← text_float hx hfinite]
      exact ⟨DecimalNumeral.text_inj, congrArg DecimalNumeral.text⟩
    · rw [Layout.value_numeral]
      exact ⟨fun hr => hr.unique hrounds, fun hr => hr ▸ hrounds⟩
    · rw [Layout.isNegative_numeral]
      exact (Binary64.toRat_neg_iff hx).symm
  · rw [display, displayFloat_eq]
    rfl

/-- A number just below a power of ten is rounded to it, and has an exponent part for that. -/
theorem display_float_carry :
    let x : Binary64 := ⟨0x42d6bcc41e8fffff⟩
    x.toRat < 10 ^ 14 ∧ ∃ n : DecimalNumeral, n.text = "1e+14".toList ∧
      RoundsTo 14 x.toRat n.value ∧ n.IsGeneral 14 := by
  intro x
  have hfinite : x.isFinite = true := by decide
  have hzero : x.toRat ≠ 0 := mt Binary64.toRat_eq_zero_iff.mp (by decide +kernel)
  have hdisplay : (Constant.float x).display = "1e+14" := by decide +kernel
  obtain ⟨n, htext, hrounds, -, hform⟩ := (display_float x).1 hfinite hzero
  refine ⟨?_, n, ?_, (hrounds n.value).mpr rfl, hform⟩
  · have hexponent : x.exponentField = 1069 := by decide
    have hfraction : x.fractionField = 0x6bcc41e8fffff := by decide
    rw [Binary64.toRat, if_neg (by decide), Binary64.size, hexponent, hfraction]
    norm_num
  · rw [(htext n).mpr rfl, hdisplay]

end Constant

end LuaBytecode
