import LuaBytecode.Number.General
import Mathlib.Algebra.Order.Field.Power
import Mathlib.Data.Nat.Log

/-!
# The digits of a number

The digits of a number and its last digits, as texts: how long they are, which number they are read
as, and how the one is cut into the other.

* `digitsOf_eq_append` — a number is its quotient by a power of ten and its last digits.
* `digitsOf_eq_lastDigits`, `length_digitsOf` — it has as many digits as its logarithm says.
* `lastDigits_eq_zeros_append` — more digits than a number has are zeros in front of it.
* `digitsOf_mul_pow`, `lastDigits_mul_pow` — times a power of ten puts zeros at the end.
* `ofDigitChars_pointed` — the digits on both sides of a point are those of the number.
* `pointed_of_log_lt`, `pointed_of_le_log` — a point stands in front of all digits or among them.
-/

namespace LuaBytecode

open Layout General

variable {n places : ℕ}

/-! ## The last digits -/

@[simp] theorem length_lastDigits (places n : ℕ) : (lastDigits places n).length = places := by
  induction places generalizing n with
  | zero => rfl
  | succ places ih => rw [lastDigits, List.length_append, ih, List.length_singleton]

theorem lastDigits_eq_nil_iff : lastDigits places n = [] ↔ places = 0 := by
  rw [← List.length_eq_zero_iff, length_lastDigits]

theorem isDigit_of_mem_lastDigits {c : Char} (h : c ∈ lastDigits places n) : c.isDigit = true := by
  induction places generalizing n with
  | zero => cases h
  | succ places ih =>
      rw [lastDigits, List.mem_append, List.mem_singleton] at h
      rcases h with hfront | rfl
      · exact ih hfront
      · rw [Nat.isDigit_digitChar, decide_eq_true (Nat.mod_lt n (by decide))]

theorem lastDigits_add (j k n : ℕ) :
    lastDigits (j + k) n = lastDigits j (n / 10 ^ k) ++ lastDigits k n := by
  induction k generalizing n with
  | zero => rw [Nat.add_zero, pow_zero, Nat.div_one, lastDigits, List.append_nil]
  | succ k ih =>
      rw [← Nat.add_assoc, lastDigits, lastDigits, ih, Nat.div_div_eq_div_mul, ← Nat.pow_succ',
        List.append_assoc]

/-- The last digits do not end in a zero, unless the number does. -/
theorem getLast?_lastDigits (hlast : n % 10 ≠ 0) : (lastDigits places n).getLast? ≠ some '0' := by
  cases places with
  | zero => exact nofun
  | succ places =>
      rw [lastDigits, List.getLast?_concat]
      exact fun hzero => hlast (Nat.digitChar_eq_zero.mp (Option.some.inj hzero))

theorem ofDigitChars_lastDigits (places n : ℕ) :
    Nat.ofDigitChars 10 (lastDigits places n) 0 = n % 10 ^ places := by
  induction places generalizing n with
  | zero => rw [lastDigits, Nat.ofDigitChars_nil, pow_zero, Nat.mod_one]
  | succ places ih =>
      rw [lastDigits, Nat.ofDigitChars_append, ih,
        Nat.ofDigitChars_cons_digitChar_of_lt_ten (Nat.mod_lt n (by decide)), Nat.ofDigitChars_nil,
        Nat.pow_succ', Nat.mod_mul, Nat.add_comm]

/-! ## All digits -/

theorem isDigit_of_mem_digitsOf {c : Char} (h : c ∈ digitsOf n) : c.isDigit = true :=
  Nat.isDigit_of_mem_toDigits (by decide) (by decide) h

/-- **A number is its quotient by a power of ten and its last digits.** -/
theorem digitsOf_eq_append (h : 10 ^ places ≤ n) :
    digitsOf n = digitsOf (n / 10 ^ places) ++ lastDigits places n := by
  induction places generalizing n with
  | zero => rw [pow_zero, Nat.div_one, lastDigits, List.append_nil]
  | succ places ih =>
      have hten : 10 ≤ n := le_trans (Nat.le_self_pow (Nat.succ_ne_zero places) 10) h
      have hquotient : 10 ^ places ≤ n / 10 := by
        rw [Nat.le_div_iff_mul_le (by decide), ← Nat.pow_succ]
        exact h
      rw [digitsOf, Nat.toDigits_of_base_le (by decide) hten, ← digitsOf, ih hquotient,
        Nat.div_div_eq_div_mul, ← Nat.pow_succ', lastDigits, List.append_assoc]

theorem digitsOf_first (n : ℕ) :
    digitsOf (n / 10 ^ Nat.log 10 n) = lastDigits 1 (n / 10 ^ Nat.log 10 n) := by
  have hfirst : n / 10 ^ Nat.log 10 n < 10 :=
    Nat.div_lt_of_lt_mul (Nat.lt_pow_succ_log_self (by decide : 1 < 10) n)
  rw [digitsOf, Nat.toDigits_of_lt_base hfirst, lastDigits, Nat.mod_eq_of_lt hfirst]
  rfl

/-- A number has as many digits as its logarithm says. -/
theorem digitsOf_eq_lastDigits (hn : n ≠ 0) : digitsOf n = lastDigits (Nat.log 10 n + 1) n := by
  rw [digitsOf_eq_append (Nat.pow_log_le_self 10 hn), Nat.add_comm, lastDigits_add, digitsOf_first]

theorem length_digitsOf (n : ℕ) : (digitsOf n).length = Nat.log 10 n + 1 := by
  rcases eq_or_ne n 0 with rfl | hn
  · rfl
  · rw [digitsOf_eq_lastDigits hn, length_lastDigits]

theorem ofDigitChars_digitsOf (n : ℕ) : Nat.ofDigitChars 10 (digitsOf n) 0 = n :=
  Nat.ofDigitChars_toDigits (by decide) (by decide)

/-! ## Zeros -/

theorem lastDigits_zero (places : ℕ) : lastDigits places 0 = zeros places := by
  induction places with
  | zero => rfl
  | succ places ih =>
      rw [lastDigits, Nat.zero_div, ih]
      exact List.replicate_succ'.symm

/-- More digits than a number has are zeros in front of it. -/
theorem lastDigits_eq_zeros_append (hn : n ≠ 0) (more : ℕ) :
    lastDigits (more + (Nat.log 10 n + 1)) n = zeros more ++ digitsOf n := by
  rw [lastDigits_add, Nat.div_eq_of_lt (Nat.lt_pow_succ_log_self (by decide) n), lastDigits_zero,
    ← digitsOf_eq_lastDigits hn]

/-- Times a power of ten puts zeros behind the last digits. -/
theorem lastDigits_mul_pow (n places zeroCount : ℕ) :
    lastDigits (places + zeroCount) (n * 10 ^ zeroCount)
      = lastDigits places n ++ zeros zeroCount := by
  induction zeroCount with
  | zero => rw [Nat.add_zero, pow_zero, Nat.mul_one, zeros, List.replicate_zero, List.append_nil]
  | succ zeroCount ih =>
      rw [← Nat.add_assoc, lastDigits, Nat.pow_succ, ← Nat.mul_assoc, Nat.mul_mod_left,
        Nat.mul_div_cancel _ (by decide), ih, List.append_assoc]
      exact congrArg _ List.replicate_succ'.symm

theorem digitsOf_mul_pow (hn : n ≠ 0) (zeroCount : ℕ) :
    digitsOf (n * 10 ^ zeroCount) = digitsOf n ++ zeros zeroCount := by
  have hzeros := lastDigits_mul_pow n 0 zeroCount
  rw [Nat.zero_add, lastDigits, List.nil_append] at hzeros
  rw [digitsOf_eq_append (Nat.le_mul_of_pos_left _ (Nat.pos_of_ne_zero hn)), hzeros,
    Nat.mul_div_cancel _ (Nat.pow_pos (by decide))]

/-! ## Digits around a point -/

/-- **The digits on both sides of a point are those of the number.** -/
theorem ofDigitChars_pointed (places n : ℕ) :
    Nat.ofDigitChars 10 (digitsOf (n / 10 ^ places) ++ lastDigits places n) 0 = n := by
  rw [Nat.ofDigitChars_append, ofDigitChars_digitsOf, Nat.ofDigitChars_eq_ofDigitChars_zero,
    length_lastDigits, ofDigitChars_lastDigits, Nat.div_add_mod]

theorem pointed_eq (places n : ℕ) :
    pointed places n
      = digitsOf (n / 10 ^ places) ++ if places = 0 then [] else '.' :: lastDigits places n := rfl

theorem pointed_zero (n : ℕ) : pointed 0 n = digitsOf n := by
  rw [pointed_eq, if_pos rfl, List.append_nil, pow_zero, Nat.div_one]

theorem lastDigits_one (n : ℕ) : lastDigits 1 (n * 10) = ['0'] := by
  rw [lastDigits, Nat.mul_mod_left]
  rfl

/-- A point in front of a zero at the end. -/
theorem pointed_one (n : ℕ) : pointed 1 (n * 10) = digitsOf n ++ ['.', '0'] := by
  rw [pointed_eq, if_neg Nat.one_ne_zero, Nat.pow_one, Nat.mul_div_cancel _ (by decide),
    lastDigits_one]

/-- A point in front of all digits has a zero and, if need be, more of them around it. -/
theorem pointed_of_log_lt (hn : n ≠ 0) (more : ℕ) :
    pointed (more + (Nat.log 10 n + 1)) n = '0' :: '.' :: zeros more ++ digitsOf n := by
  have hwhole : n / 10 ^ (more + (Nat.log 10 n + 1)) = 0 := by
    have hlt := Nat.lt_pow_succ_log_self (by decide : 1 < 10) n
    refine Nat.div_eq_of_lt (Nat.lt_of_lt_of_le hlt ?_)
    exact Nat.pow_le_pow_right (by decide) (Nat.le_add_left _ more)
  rw [pointed_eq, if_neg (by omega), hwhole, lastDigits_eq_zeros_append hn]
  rfl

/-- A point between the digits cuts them in two. -/
theorem pointed_of_le_log (hn : n ≠ 0) {places : ℕ} (hplaces : places ≠ 0)
    (hle : places ≤ Nat.log 10 n) :
    pointed places n = (digitsOf n).take (Nat.log 10 n + 1 - places) ++
      '.' :: (digitsOf n).drop (Nat.log 10 n + 1 - places) := by
  have hdigits := digitsOf_eq_append (Nat.pow_le_of_le_log hn hle)
  have hlength : (digitsOf (n / 10 ^ places)).length = Nat.log 10 n + 1 - places := by
    have htotal := congrArg List.length hdigits
    rw [length_digitsOf, List.length_append, length_lastDigits] at htotal
    omega
  rw [pointed_eq, if_neg hplaces, hdigits, List.take_left' hlength, List.drop_left' hlength]

end LuaBytecode
