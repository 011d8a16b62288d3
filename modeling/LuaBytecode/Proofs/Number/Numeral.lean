import LuaBytecode.Proofs.Front
import LuaBytecode.Proofs.Number.Digits
import Mathlib.Algebra.Order.Field.Power
import Mathlib.Data.Int.Log
import Mathlib.Tactic.FieldSimp
import Mathlib.Tactic.Ring

/-!
# Decimal numerals

What a text means that is a sign, digits, digits behind a point and an exponent part: a rational
number.  A numeral has its parts as such, so that a text is a numeral if it is the text of one.

* `DecimalNumeral` — the parts, each of them digits.
* **`text_inj`** — a text is read as a numeral in one way only.
* `pointed` — a numeral with the digits of a whole number and a point in front of the last.
* `value_pointed` — what it denotes.
-/

namespace LuaBytecode

/-- A sign in front of a number. -/
def signed (isNegative : Bool) (q : ℚ) : ℚ := if isNegative then -q else q

theorem abs_signed (isNegative : Bool) (q : ℚ) : |signed isNegative q| = |q| := by
  cases isNegative with
  | true => exact abs_neg q
  | false => rfl

/-- The exponent part of a numeral: a sign, which is always written, and digits. -/
@[ext]
structure ExponentPart where
  isNegative : Bool
  digits : List Char
  isDigit : ∀ c ∈ digits, c.isDigit = true

namespace ExponentPart

def text (part : ExponentPart) : List Char :=
  'e' :: (if part.isNegative then '-' else '+') :: part.digits

def value (part : ExponentPart) : ℤ :=
  let size : ℤ := Nat.ofDigitChars 10 part.digits 0
  if part.isNegative then -size else size

end ExponentPart

/-- A decimal numeral.  If no digits are behind the point, there is no point. -/
@[ext]
structure DecimalNumeral where
  isNegative : Bool
  whole : List Char
  fraction : List Char
  exponent? : Option ExponentPart
  whole_ne_nil : whole ≠ []
  isDigit : ∀ c ∈ whole ++ fraction, c.isDigit = true

namespace DecimalNumeral

/-- The text behind the digits in front of the point. -/
def rest (n : DecimalNumeral) : List Char :=
  (if n.fraction = [] then [] else '.' :: n.fraction) ++ n.exponent?.elim [] ExponentPart.text

def text (n : DecimalNumeral) : List Char :=
  General.signText n.isNegative ++ n.whole ++ n.rest

/-- The number that a numeral denotes: its digits as a whole number, times a power of ten for the
exponent part and the places behind the point. -/
def value (n : DecimalNumeral) : ℚ :=
  signed n.isNegative <| Nat.ofDigitChars 10 (n.whole ++ n.fraction) 0
    * 10 ^ (n.exponent?.elim 0 ExponentPart.value - n.fraction.length)

/-! ## Reading -/

/-- Digits in front of something else are seen in the text. -/
theorem append_digits_inj {s t u v : List Char} (hs : ∀ c ∈ s, c.isDigit = true)
    (ht : ∀ c ∈ t, c.isDigit = true) (hu : ∀ c ∈ u.head?, c.isDigit = false)
    (hv : ∀ c ∈ v.head?, c.isDigit = false) (h : s ++ u = t ++ v) : s = t ∧ u = v :=
  append_front_inj (f := fun c => !c.isDigit) (by simpa using hs) (by simpa using hu)
    (by simpa using ht) (by simpa using hv) h

theorem head?_exponentText (exponent? : Option ExponentPart) :
    ∀ c ∈ (exponent?.elim [] ExponentPart.text).head?, c = 'e' := by
  cases exponent? with
  | none => exact nofun
  | some part => exact fun c hc => (Option.some.inj hc).symm

theorem head?_rest (n : DecimalNumeral) : ∀ c ∈ n.rest.head?, c.isDigit = false := by
  intro c hc
  rw [rest] at hc
  split_ifs at hc
  · rw [head?_exponentText _ c hc]
    rfl
  · rw [← Option.some.inj hc]
    rfl

theorem exponentText_inj {m n : Option ExponentPart}
    (h : m.elim [] ExponentPart.text = n.elim [] ExponentPart.text) : m = n := by
  cases m with
  | none =>
      cases n with
      | none => rfl
      | some n => cases h
  | some m =>
      cases n with
      | none => cases h
      | some n =>
          obtain ⟨hsign, hdigits⟩ := List.cons.inj (List.cons.inj h).2
          have hsign : m.isNegative = n.isNegative := by
            cases hm : m.isNegative <;> cases hn : n.isNegative <;> simp_all
          exact congrArg some (ExponentPart.ext hsign hdigits)

/-- What is behind the digits in front of the point is either a point and digits, or nothing. -/
theorem rest_inj {m n : DecimalNumeral} (h : m.rest = n.rest) :
    m.fraction = n.fraction ∧ m.exponent? = n.exponent? := by
  have hdigits : ∀ n : DecimalNumeral, ∀ c ∈ n.fraction, c.isDigit = true :=
    fun n c hc => n.isDigit c (List.mem_append_right _ hc)
  have hexponent : ∀ n : DecimalNumeral,
      ∀ c ∈ (n.exponent?.elim [] ExponentPart.text).head?, c.isDigit = false :=
    fun n c hc => by rw [head?_exponentText _ c hc]; rfl
  -- a point is none of the characters an exponent part starts with
  have hpoint : ∀ (n : DecimalNumeral) (u : List Char),
      '.' :: u ≠ n.exponent?.elim [] ExponentPart.text := fun n u hu =>
    absurd (head?_exponentText n.exponent? '.' (by rw [← hu]; rfl)) (by decide)
  rw [rest, rest] at h
  split_ifs at h with hm hn hn
  · rw [hm, hn]
    exact ⟨rfl, exponentText_inj h⟩
  · exact absurd h.symm (hpoint m _)
  · exact absurd h (hpoint n _)
  · obtain ⟨hfraction, hrest⟩ := append_digits_inj (hdigits m) (hdigits n) (hexponent m)
      (hexponent n) (List.cons.inj h).2
    exact ⟨hfraction, exponentText_inj hrest⟩

/-- **A text is read as a numeral in one way only.** -/
theorem text_inj {m n : DecimalNumeral} (h : m.text = n.text) : m = n := by
  have hdigits : ∀ n : DecimalNumeral, ∀ c ∈ n.whole, c.isDigit = true :=
    fun n c hc => n.isDigit c (List.mem_append_left _ hc)
  -- a sign is none of the characters a numeral without one starts with
  have hminus : ∀ (n : DecimalNumeral) (u : List Char), '-' :: u ≠ n.whole ++ n.rest := by
    intro n u hu
    obtain ⟨c, cs, hwhole⟩ := List.exists_cons_of_ne_nil n.whole_ne_nil
    rw [hwhole] at hu
    have hc := hdigits n c (by rw [hwhole]; exact List.mem_cons_self)
    rw [← (List.cons.inj hu).1] at hc
    exact absurd hc (by decide)
  have hparts : m.isNegative = n.isNegative ∧ m.whole ++ m.rest = n.whole ++ n.rest := by
    rw [text, text, List.append_assoc, List.append_assoc] at h
    cases hm : m.isNegative <;> cases hn : n.isNegative <;> rw [hm, hn] at h
    · exact ⟨rfl, h⟩
    · exact absurd h.symm (hminus m _)
    · exact absurd h (hminus n _)
    · exact ⟨rfl, (List.cons.inj h).2⟩
  obtain ⟨hwhole, hrest⟩ := append_digits_inj (hdigits m) (hdigits n) m.head?_rest n.head?_rest
    hparts.2
  obtain ⟨hfraction, hexponent⟩ := rest_inj hrest
  exact DecimalNumeral.ext hparts.1 hwhole hfraction hexponent

/-! ## Numerals of whole numbers -/

/-- The digits of a number, with a point in front of the last `places`. -/
def pointed (isNegative : Bool) (places n : ℕ) (exponent? : Option ExponentPart) :
    DecimalNumeral where
  isNegative
  whole := Layout.digitsOf (n / 10 ^ places)
  fraction := General.lastDigits places n
  exponent?
  whole_ne_nil := Nat.toDigits_ne_nil
  isDigit := fun _ hc =>
    (List.mem_append.mp hc).elim isDigit_of_mem_digitsOf isDigit_of_mem_lastDigits

variable {isNegative : Bool} {places n : ℕ} {exponent? : Option ExponentPart}

theorem text_pointed :
    (pointed isNegative places n exponent?).text
      = General.signText isNegative ++ General.pointed places n
        ++ exponent?.elim [] ExponentPart.text := by
  have hrest : (pointed isNegative places n exponent?).rest
      = (if places = 0 then [] else '.' :: General.lastDigits places n)
        ++ exponent?.elim [] ExponentPart.text := by
    rw [rest]
    exact congrArg (· ++ _) (if_congr lastDigits_eq_nil_iff rfl rfl)
  rw [text, hrest, General.pointed]
  simp only [List.append_assoc]
  rfl

/-- **Its digits are those of the number.** -/
theorem value_pointed :
    (pointed isNegative places n exponent?).value
      = signed isNegative (n * 10 ^ (exponent?.elim 0 ExponentPart.value - places : ℤ)) := by
  rw [value]
  dsimp only [pointed]
  rw [ofDigitChars_pointed, length_lastDigits]

end DecimalNumeral

end LuaBytecode
