import LuaBytecode.Constant.Display
import LuaBytecode.Proofs.Number.Binary64
import LuaBytecode.Proofs.Number.Digits
import LuaBytecode.Proofs.Number.Rounding
import Mathlib.Data.List.DropRight

/-!
# Two roundings agree with one

A number is rounded once to choose between the forms, and once more for its text.  The second
rounding starts from the exact value with a number of places that depends on the first, also where
that carried into a new power of ten.  Here is why the text is the one that a single rounding gives.

* `trim_pointed` — trimming takes the zeros at the end of a number out of its fraction, never out
  of its whole digits.
* `plain_eq`, `scientific_eq` — what a `Layout` writes, as a number with a point among its digits.
* **`roundDiv_rounded`** — the second rounding picks the digits of the first.
* `markFloat_write` — so the digits of one rounding, laid out, are the text with two.
* **`displayFloat_eq`** — a listing writes every float as two roundings do.
-/

namespace LuaBytecode

open Layout General

/-! ## Trimming -/

namespace General

/-- A text that does not end in a character loses exactly what is put behind it. -/
theorem dropEnd_append_replicate {c : Char} {text : List Char} (h : text.getLast? ≠ some c)
    (count : ℕ) : dropEnd c (text ++ List.replicate count c) = text := by
  induction count with
  | zero =>
      rw [List.replicate_zero, List.append_nil]
      refine List.rdropWhile_eq_self_iff.mpr fun hne hlast => h ?_
      rw [List.getLast?_eq_some_getLast hne, eq_of_beq hlast]
  | succ count ih =>
      rw [List.replicate_succ', ← List.append_assoc]
      exact (List.rdropWhile_concat_pos (· == c) _ c (beq_self_eq_true c)).trans ih

theorem dropEnd_of_getLast? {c : Char} {text : List Char} (h : text.getLast? ≠ some c) :
    dropEnd c text = text := by
  simpa using dropEnd_append_replicate h 0

theorem getLast?_point (front kept : List Char) :
    (front ++ '.' :: kept).getLast? = some (kept.getLast?.getD '.') := by
  rw [List.getLast?_append, List.getLast?_cons, Option.some_or]

/-- What is left of a text with a point: the zeros behind it go, and the point if nothing else was
behind it. -/
theorem trim_point {front kept : List Char} (hfront : front.getLast? ≠ some '.')
    (hkept : kept.getLast? ≠ some '0') (hpoint : '.' ∉ kept) (count : ℕ) :
    trim (front ++ '.' :: (kept ++ zeros count))
      = front ++ if kept = [] then [] else '.' :: kept := by
  have hmem : '.' ∈ front ++ '.' :: (kept ++ zeros count) :=
    List.mem_append_right _ List.mem_cons_self
  have hzeros : dropEnd '0' (front ++ '.' :: (kept ++ zeros count)) = front ++ '.' :: kept := by
    have hend : (front ++ '.' :: kept).getLast? ≠ some '0' := by
      rw [getLast?_point]
      cases hlast : kept.getLast? with
      | none => decide
      | some c =>
          rw [Option.getD_some, ← hlast]
          exact hkept
    rw [← List.cons_append, ← List.append_assoc]
    exact dropEnd_append_replicate hend count
  rw [trim, if_pos hmem, hzeros]
  split_ifs with hnil
  · subst hnil
    rw [List.append_nil]
    exact dropEnd_append_replicate hfront 1
  · refine dropEnd_of_getLast? ?_
    rw [getLast?_point, List.getLast?_eq_some_getLast hnil, Option.getD_some]
    exact fun hlast => hpoint (Option.some.inj hlast ▸ List.getLast_mem hnil)

theorem point_not_mem_digitsOf (n : ℕ) : '.' ∉ digitsOf n :=
  fun h => absurd (isDigit_of_mem_digitsOf h) (by decide)

theorem point_not_mem_lastDigits (places n : ℕ) : '.' ∉ lastDigits places n :=
  fun h => absurd (isDigit_of_mem_lastDigits h) (by decide)

section Sign

variable {sign : List Char} (hsign : '.' ∉ sign)

include hsign

theorem point_not_mem_append (n : ℕ) : '.' ∉ sign ++ digitsOf n :=
  fun h => (List.mem_append.mp h).elim hsign (point_not_mem_digitsOf n)

/-- Zeros behind a number are trimmed from its fraction. -/
theorem trim_pointed_zeros {places n : ℕ} (hlast : places = 0 ∨ n % 10 ≠ 0) (zeroCount : ℕ) :
    trim (sign ++ pointed (places + zeroCount) (n * 10 ^ zeroCount))
      = sign ++ pointed places n := by
  have hwhole : n * 10 ^ zeroCount / 10 ^ (places + zeroCount) = n / 10 ^ places := by
    rw [pow_add, Nat.mul_div_mul_right _ _ (Nat.pow_pos (by decide))]
  have hkept : (lastDigits places n).getLast? ≠ some '0' := by
    rcases hlast with rfl | hlast
    · exact nofun
    · exact getLast?_lastDigits hlast
  rw [pointed_eq, pointed_eq, hwhole, ← List.append_assoc, ← List.append_assoc]
  split_ifs with hboth hplaces hplaces
  · rw [List.append_nil, trim, if_neg (point_not_mem_append hsign _)]
  · omega
  · rw [lastDigits_mul_pow, trim_point _ hkept (point_not_mem_lastDigits places n),
      if_pos (lastDigits_eq_nil_iff.mpr hplaces)]
    exact fun h => point_not_mem_append hsign _ (List.mem_of_getLast? h)
  · rw [lastDigits_mul_pow, trim_point _ hkept (point_not_mem_lastDigits places n),
      if_neg (mt lastDigits_eq_nil_iff.mp hplaces)]
    exact fun h => point_not_mem_append hsign _ (List.mem_of_getLast? h)

/-- **Trimming takes the zeros at the end of a number out of its fraction**, never out of its whole
digits. -/
theorem trim_pointed {n : ℕ} (hlast : n % 10 ≠ 0) (places zeroCount : ℕ) :
    trim (sign ++ pointed places (n * 10 ^ zeroCount))
      = sign ++ pointed (places - zeroCount) (n * 10 ^ (zeroCount - places)) := by
  rcases Nat.le_total zeroCount places with hle | hle
  · have htrim := trim_pointed_zeros hsign (Or.inr hlast : places - zeroCount = 0 ∨ _) zeroCount
    rw [Nat.sub_add_cancel hle] at htrim
    rw [Nat.sub_eq_zero_of_le hle, pow_zero, mul_one, htrim]
  · have htrim := trim_pointed_zeros hsign (n := n * 10 ^ (zeroCount - places)) (Or.inl rfl) places
    rw [Nat.zero_add, mul_assoc, ← pow_add, Nat.sub_add_cancel hle] at htrim
    rw [Nat.sub_eq_zero_of_le hle, htrim]

end Sign

/-- A text of a sign and digits is marked, unless it has a point. -/
theorem markFloat_pointed {sign : List Char} (hsign : ∀ c ∈ sign, c = '-') (places n : ℕ) :
    markFloat (sign ++ pointed places n)
      = sign ++ (pointed places n ++ if places = 0 then ['.', '0'] else []) := by
  rw [markFloat, ← List.append_assoc]
  rcases eq_or_ne places 0 with rfl | hplaces
  · rw [if_pos, if_pos rfl]
    refine List.all_eq_true.mpr fun c hc => ?_
    rw [pointed_zero, List.mem_append] at hc
    rcases hc with hc | hc
    · rw [hsign c hc]
      rfl
    · rw [isDigit_of_mem_digitsOf hc, Bool.or_true]
  · rw [if_neg, if_neg hplaces, List.append_nil]
    intro hall
    have hpoint : '.' ∈ sign ++ pointed places n := by
      rw [pointed_eq, if_neg hplaces]
      exact List.mem_append_right _ (List.mem_append_right _ List.mem_cons_self)
    exact absurd (List.all_eq_true.mp hall _ hpoint) (by decide)

/-- A text with an exponent part is no integer. -/
theorem markFloat_of_mem {text : List Char} (h : 'e' ∈ text) : markFloat text = text := by
  rw [markFloat, if_neg]
  exact fun hall => absurd (List.all_eq_true.mp hall _ h) (by decide)

end General

/-! ## What a layout writes -/

namespace Layout

variable {n : ℕ}

/-- Without an exponent part: the places that the digits take behind the point, or the zeros that
the digits need to reach it. -/
theorem plain_eq (hn : n ≠ 0) (exponent : ℤ) :
    plain (digitsOf n) exponent
      = pointed (Nat.log 10 n - exponent).toNat (n * 10 ^ (exponent - Nat.log 10 n).toNat)
        ++ if (Nat.log 10 n - exponent).toNat = 0 then ['.', '0'] else [] := by
  rw [plain, length_digitsOf]
  rcases lt_or_ge exponent 0 with hneg | hpos
  · have hplaces : (Nat.log 10 n - exponent).toNat
        = (-exponent - 1).toNat + (Nat.log 10 n + 1) := by omega
    rw [if_pos hneg, hplaces, if_neg (by omega), List.append_nil,
      Int.toNat_of_nonpos (by omega : exponent - Nat.log 10 n ≤ 0), pow_zero, mul_one,
      pointed_of_log_lt hn]
  rw [if_neg (not_lt.mpr hpos)]
  rcases le_or_gt (Nat.log 10 n + 1) (exponent.toNat + 1) with hle | hgt
  · have hplaces : (Nat.log 10 n - exponent).toNat = 0 := by omega
    have hzeros : exponent.toNat + 1 - (Nat.log 10 n + 1) = (exponent - Nat.log 10 n).toNat := by
      omega
    rw [if_pos hle, hplaces, if_pos rfl, pointed_zero, digitsOf_mul_pow hn, hzeros]
  · have hcut : Nat.log 10 n + 1 - (Nat.log 10 n - exponent).toNat = exponent.toNat + 1 := by omega
    rw [if_neg (not_le.mpr hgt), if_neg (by omega), List.append_nil,
      Int.toNat_of_nonpos (by omega : exponent - Nat.log 10 n ≤ 0), pow_zero, mul_one,
      pointed_of_le_log hn (by omega) (by omega), hcut]

/-- The exponent part for an exponent. -/
def exponentText (layout : Layout) (exponent : ℤ) : List Char :=
  'e' :: (if exponent < 0 then ['-'] else if layout.plusSign then ['+'] else []) ++
    (zeros (layout.exponentWidth - (digitsOf exponent.natAbs).length) ++ digitsOf exponent.natAbs)

/-- With an exponent part: a point behind the first digit if there are more. -/
theorem scientific_eq (layout : Layout) (hn : n ≠ 0) (exponent : ℤ) :
    layout.scientific (digitsOf n) exponent
      = pointed (Nat.log 10 n) n ++ layout.exponentText exponent := by
  have hlength := length_digitsOf n
  rw [exponentText, ← List.append_assoc, ← List.append_assoc]
  rcases hdigits : digitsOf n with _ | ⟨d, _ | ⟨d', rest⟩⟩
  · simp [hdigits] at hlength
  · have hlog : Nat.log 10 n = 0 := by simpa [hdigits] using hlength.symm
    rw [hlog, pointed_zero, hdigits]
    rfl
  · have hlog : Nat.log 10 n ≠ 0 := by
      rw [hdigits] at hlength
      simp at hlength
      omega
    rw [pointed_of_le_log hn hlog le_rfl, hdigits, Nat.add_sub_cancel_left]
    rfl

end Layout

/-! ## The second rounding -/

namespace Decimal

/-- The digits of a number with zeros behind them, so that `places` digits follow the first. -/
def padded (places : ℕ) (d : Decimal) : ℕ := d.digits * 10 ^ (places - Nat.log 10 d.digits)

variable {places num den : ℕ}

theorem exponent_rounded (precision num den : ℕ) :
    (rounded precision num den).exponent
      = if gridDigits precision num den < 10 ^ precision then leadingPlace num den
        else leadingPlace num den + 1 := rfl

theorem log_digits_rounded {precision : ℕ} (hprecision : 0 < precision) (hnum : 0 < num)
    (hden : 0 < den) : Nat.log 10 (rounded precision num den).digits < precision := by
  obtain ⟨hlower, hupper⟩ := gridDigits_bounds hprecision hnum hden
  obtain ⟨zeroCount, hstrip, hlast⟩ := exists_stripZeros (ne_zero_of_grid hlower)
  have hdigits : (rounded precision num den).digits = stripZeros (gridDigits precision num den) :=
    rfl
  rw [hdigits]
  have hle : stripZeros (gridDigits precision num den) ≤ 10 ^ precision := by
    refine le_trans ?_ hupper
    conv_rhs => rw [hstrip]
    exact Nat.le_mul_of_pos_right _ (Nat.pow_pos (by decide))
  have hne : stripZeros (gridDigits precision num den) ≠ 10 ^ precision := by
    intro h
    rw [h, ← Nat.sub_add_cancel hprecision, Nat.pow_succ] at hlast
    exact hlast (Nat.mul_mod_left _ 10)
  exact Nat.log_lt_of_lt_pow (ne_zero_of_mod_ten hlast) (Nat.lt_of_le_of_ne hle hne)

/-- Digits that carried into one more have a zero at the end, which is not kept. -/
theorem padded_rounded (hnum : 0 < num) (hden : 0 < den) :
    padded places (rounded (places + 1) num den)
      = if gridDigits (places + 1) num den < 10 ^ (places + 1) then gridDigits (places + 1) num den
        else gridDigits (places + 1) num den / 10 := by
  obtain ⟨hlower, hupper⟩ := gridDigits_bounds (Nat.succ_pos places) hnum hden
  obtain ⟨zeroCount, hstrip, hlast⟩ := exists_stripZeros (ne_zero_of_grid hlower)
  have hkept := log_digits_rounded (Nat.succ_pos places) hnum hden
  have hlog := log_of_grid (Nat.succ_pos places) hlower hupper
  have hdigits : (rounded (places + 1) num den).digits
      = stripZeros (gridDigits (places + 1) num den) := rfl
  rw [padded]
  rw [hdigits] at hkept ⊢
  generalize gridDigits (places + 1) num den = digits at *
  generalize stripZeros digits = kept at *
  subst hstrip
  rw [log_mul_pow (ne_zero_of_mod_ten hlast)] at hlog
  split_ifs at hlog ⊢ with hcarry
  · have hzeros : places - Nat.log 10 kept = zeroCount := by omega
    rw [hzeros]
  · have hzeros : zeroCount = places - Nat.log 10 kept + 1 := by omega
    rw [hzeros, Nat.pow_succ, ← Nat.mul_assoc, Nat.mul_div_cancel _ (by decide)]

theorem scale_natCast (num den shift : ℕ) :
    scale num den shift = (num * 10 ^ shift, den, 10 ^ shift) := by
  rw [scale, if_pos (Int.natCast_nonneg shift)]
  rfl

theorem gridDigits_succ (places num den : ℕ) :
    gridDigits (places + 1) num den
      = roundDiv .toEven (scale num den (places - leadingPlace num den)).1
          (scale num den (places - leadingPlace num den)).2.1 := by
  rw [gridDigits, Nat.cast_succ, add_sub_cancel_right]

/-- **The second rounding picks the digits of the first.**  If these carried, the exact value is so
close to a power of ten that with one place less it is rounded to one as well. -/
theorem roundDiv_rounded (hnum : 0 < num) (hden : 0 < den) {second : ℕ}
    (hsecond : (second : ℤ) = places - (rounded (places + 1) num den).exponent) :
    roundDiv .toEven (num * 10 ^ second) den
      = padded places (rounded (places + 1) num den) := by
  rw [padded_rounded hnum hden]
  rw [exponent_rounded] at hsecond
  split_ifs at hsecond ⊢ with hcarry
  · rw [gridDigits_succ, ← hsecond, scale_natCast]
  · have hfirst : (places : ℤ) - leadingPlace num den = (second + 1 : ℕ) := by omega
    have hdigits : gridDigits (places + 1) num den = 10 ^ places * 10 := by
      obtain ⟨-, hupper⟩ := gridDigits_bounds (Nat.succ_pos places) hnum hden
      exact Nat.le_antisymm hupper (Nat.le_of_not_lt hcarry)
    have htenth : NearestEven ((num * 10 ^ second : ℕ) / (den : ℚ)) (10 ^ places : ℕ) := by
      have hrounded := nearestEven_roundDiv (num * 10 ^ (second + 1)) hden
      have hten : (num * 10 ^ (second + 1) : ℕ) / (den : ℚ)
          = 10 * ((num * 10 ^ second : ℕ) / den) := by
        push_cast
        ring
      rw [gridDigits_succ, hfirst, scale_natCast] at hdigits
      rw [hdigits, hten, Nat.mul_comm (10 ^ places)] at hrounded
      exact hrounded.of_tenfold
    rw [hdigits, Nat.mul_div_cancel _ (by decide)]
    exact_mod_cast (nearestEven_roundDiv (num * 10 ^ second) hden).unique htenth

/-- The first rounding shows its digits and tells the exponent. -/
theorem scientific_rounded (hnum : 0 < num) (hden : 0 < den) :
    General.scientific places num den
      = ⟨pointed places (padded places (rounded (places + 1) num den)),
          (rounded (places + 1) num den).exponent⟩ := by
  rw [padded_rounded hnum hden, exponent_rounded, gridDigits_succ, General.scientific]
  dsimp only
  rw [Nat.pow_eq]
  split_ifs
  · rfl
  · rfl

theorem fixed_rounded (hnum : 0 < num) (hden : 0 < den) {second : ℕ}
    (hsecond : (second : ℤ) = places - (rounded (places + 1) num den).exponent) :
    fixed second num den = pointed second (padded places (rounded (places + 1) num den)) :=
  congrArg (pointed second) (roundDiv_rounded hnum hden hsecond)

end Decimal

/-! ## Both formats -/

/-- **The digits of one rounding, laid out, are the text with two.** -/
theorem markFloat_write {sign : List Char} (hsign : ∀ c ∈ sign, c = '-') {num den : ℕ}
    (hnum : 0 < num) (hden : 0 < den) (places : ℕ) :
    markFloat (General.write sign (places + 1) num den)
      = sign ++ Layout.write ⟨-4, places, true, 2⟩ (Decimal.rounded (places + 1) num den) := by
  have hpoint : '.' ∉ sign := fun h => absurd (hsign _ h) (by decide)
  have hlast := Decimal.digits_rounded (Nat.succ_pos places) hnum hden
  have hlog := Decimal.log_digits_rounded (Nat.succ_pos places) hnum hden
  have hfixed : ∀ second : ℕ, (second : ℤ) = places - _ → fixed second num den = _ := fun _ =>
    Decimal.fixed_rounded hnum hden
  rw [General.write, Nat.add_sub_cancel, Decimal.scientific_rounded hnum hden, Nat.cast_succ,
    add_sub_cancel_right]
  generalize Decimal.rounded (places + 1) num den = d at *
  have hdigits : d.digits ≠ 0 := Decimal.ne_zero_of_mod_ten hlast
  rw [Layout.write]
  dsimp only
  by_cases hplain : -4 ≤ d.exponent ∧ d.exponent ≤ places
  · have hplaces : (places - d.exponent).toNat - (places - Nat.log 10 d.digits)
        = (Nat.log 10 d.digits - d.exponent).toNat := by omega
    have hzeros : places - Nat.log 10 d.digits - (places - d.exponent).toNat
        = (d.exponent - Nat.log 10 d.digits).toNat := by omega
    rw [if_neg (by omega), if_pos hplain, hfixed _ (by omega), Decimal.padded,
      trim_pointed hpoint hlast, markFloat_pointed hsign, plain_eq hdigits, hplaces, hzeros]
  · have hplaces : places - (places - Nat.log 10 d.digits) = Nat.log 10 d.digits := by omega
    have hzeros : places - Nat.log 10 d.digits - places = 0 := by omega
    rw [if_pos (by omega), if_neg hplain, Decimal.padded, trim_pointed hpoint hlast, hplaces,
      hzeros, pow_zero, mul_one, markFloat_of_mem (by simp), Layout.scientific_eq _ hdigits,
      List.append_assoc]
    by_cases hneg : d.exponent < 0
    · simp [Layout.exponentText, hneg]
    · simp [Layout.exponentText, hneg]

theorem eq_minus_of_mem_signText {isNegative : Bool} {c : Char} (h : c ∈ signText isNegative) :
    c = '-' := by
  rw [signText] at h
  split_ifs at h
  · exact List.mem_singleton.mp h
  · cases h

theorem not_isNaN_of_isFinite {x : Binary64} (h : x.isFinite = true) : x.isNaN = false := by
  simp only [Binary64.isFinite, decide_eq_true_eq] at h
  simp only [Binary64.isNaN, decide_eq_false_iff_not]
  omega

theorem Layout.writeFinite_eq (layout : Layout) (pick : Binary64 → Decimal) (x : Binary64) :
    layout.writeFinite pick x
      = signText x.isNegative ++
        if x.magnitude = 0 then ['0', '.', '0'] else layout.write (pick x) := by
  rw [writeFinite, signText]
  split_ifs <;> rfl

/-- **A listing writes every float as two roundings do.** -/
theorem displayFloat_eq (x : Binary64) :
    Constant.displayFloat x = General.ofFloat Constant.floatPrecision x := by
  rw [Constant.displayFloat, General.ofFloat]
  cases hfinite : x.isFinite with
  | true =>
      rw [not_isNaN_of_isFinite hfinite, Layout.writeFinite_eq]
      simp only [Bool.not_true, Bool.false_eq_true, reduceIte]
      split_ifs with hzero
      · exact (markFloat_pointed (fun _ => eq_minus_of_mem_signText) 0 0).symm
      · exact (markFloat_write (fun _ => eq_minus_of_mem_signText) (Nat.pos_of_ne_zero hzero)
          Binary64.unitsPerOne_pos 13).symm
  | false =>
      simp only [Bool.not_false, Bool.false_eq_true, reduceIte, signText]
      split_ifs
      · rfl
      · rfl
      · rfl

end LuaBytecode
