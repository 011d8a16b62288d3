import LuaBytecode.Number.Layout

/-!
# Formatting with two roundings

The format `%.Ng`, put together from two simpler ones: a number with an exponent part, and a number
with a fixed number of places.  The first is asked for the exponent only, unless that is so small or
so large that its text is wanted; otherwise the second writes the number once more, from the exact
value and not from the digits of the first.  Zeros at the end are cut off the text.

This is a second description of what a `Layout` writes from `Decimal.rounded`, which rounds once.
-/

namespace LuaBytecode

namespace General

/-- The last `places` digits of a number, with zeros in front if it has fewer. -/
def lastDigits : (places : Nat) → (n : Nat) → List Char
  | 0, _ => []
  | places + 1, n => lastDigits places (n / 10) ++ [Nat.digitChar (n % 10)]

/-- A number of digits with a point in front of the last `places`; without places no point. -/
def pointed (places n : Nat) : List Char :=
  Layout.digitsOf (n / Nat.pow 10 places) ++
    if places = 0 then [] else '.' :: lastDigits places n

/-- The fraction `num / den` with a fixed number of places. -/
def fixed (places num den : Nat) : List Char :=
  pointed places (roundDiv .toEven (num * Nat.pow 10 places) den)

/-- A number with an exponent part, its text before the part and the exponent. -/
structure Scientific where
  mantissa : List Char
  exponent : Int

/-- The fraction `num / den` with one digit in front of the point and `places` behind it.  If the
digits carry into one more, the last of them is a zero and makes room. -/
def scientific (places num den : Nat) : Scientific :=
  let place := Decimal.leadingPlace num den
  let (num, den, _) := Decimal.scale num den (places - place)
  let digits := roundDiv .toEven num den
  if digits < Nat.pow 10 (places + 1) then ⟨pointed places digits, place⟩
  else ⟨pointed places (digits / 10), place + 1⟩

/-- A text without what it has of one character at its end. -/
def dropEnd (c : Char) (text : List Char) : List Char :=
  (text.reverse.dropWhile (· == c)).reverse

/-- A text without the zeros at the end of a fraction, and without a point that nothing follows. -/
def trim (text : List Char) : List Char :=
  if '.' ∈ text then dropEnd '.' (dropEnd '0' text) else text

/-- A sign and a fraction other than zero with `precision` significant digits. -/
def write (sign : List Char) (precision num den : Nat) : List Char :=
  let first := scientific (precision - 1) num den
  if first.exponent < -4 ∨ precision ≤ first.exponent then
    let size := Layout.digitsOf first.exponent.natAbs
    trim (sign ++ first.mantissa) ++ 'e' :: (if first.exponent < 0 then '-' else '+') ::
      (Layout.zeros (2 - size.length) ++ size)
  else
    trim (sign ++ fixed (precision - 1 - first.exponent).toNat num den)

/-- A text that could be an integer is marked as none. -/
def markFloat (text : List Char) : List Char :=
  if text.all (fun c => c == '-' || c.isDigit) then text ++ ['.', '0'] else text

/-- What a number has in front of its size. -/
def signText (isNegative : Bool) : List Char := if isNegative then ['-'] else []

/-- A float, with `precision` significant digits if it is finite. -/
def ofFloat (precision : Nat) (x : Binary64) : List Char :=
  if x.isNaN then "nan".toList
  else if !x.isFinite then signText x.isNegative ++ "inf".toList
  else markFloat <|
    if x.magnitude = 0 then signText x.isNegative ++ ['0']
    else write (signText x.isNegative) precision x.magnitude Binary64.unitsPerOne

end General

end LuaBytecode
