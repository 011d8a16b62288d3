import LuaBytecode.Number.Decimal

/-!
# Writing a decimal number

A `Layout` holds what a format of numbers decides once the digits are known: which exponents are
written without an exponent part, whether a whole number shows that it is one, and how an exponent
part looks.  The formats themselves are values of this type, stated where the text they belong to
is written.
-/

namespace LuaBytecode

/-- The choices of a number format. -/
structure Layout where
  /-- The least exponent written without an exponent part. -/
  lowest : Int
  /-- The greatest exponent written without an exponent part. -/
  highest : Int
  /-- An exponent part of a large number has a plus sign. -/
  plusSign : Bool
  /-- An exponent part has at least this many digits. -/
  exponentWidth : Nat

namespace Layout

/-- The digits of a number, most significant first. -/
def digitsOf (n : Nat) : List Char := Nat.toDigits 10 n

/-- A run of zeros. -/
def zeros (n : Nat) : List Char := List.replicate n '0'

/-- Digits without an exponent part; a whole number ends in `.0`. -/
def plain (digits : List Char) (exponent : Int) : List Char :=
  if exponent < 0 then
    '0' :: '.' :: zeros (-exponent - 1).toNat ++ digits
  else
    let whole := exponent.toNat + 1
    if digits.length ≤ whole then
      digits ++ zeros (whole - digits.length) ++ ['.', '0']
    else
      digits.take whole ++ '.' :: digits.drop whole

/-- Digits with an exponent part; a single digit has no point behind it. -/
def scientific (layout : Layout) (digits : List Char) (exponent : Int) : List Char :=
  let sign := if exponent < 0 then ['-'] else if layout.plusSign then ['+'] else []
  let size := digitsOf exponent.natAbs
  let mantissa := match digits with
    | [] => []
    | [d] => [d]
    | d :: rest => d :: '.' :: rest
  mantissa ++ 'e' :: sign ++ zeros (layout.exponentWidth - size.length) ++ size

/-- The text of a positive decimal number. -/
def write (layout : Layout) (d : Decimal) : List Char :=
  if layout.lowest ≤ d.exponent ∧ d.exponent ≤ layout.highest then
    plain (digitsOf d.digits) d.exponent
  else
    layout.scientific (digitsOf d.digits) d.exponent

/-- The text of a finite number: the sign, `0.0` for a zero, and otherwise the digits that `pick`
chooses. -/
def writeFinite (layout : Layout) (pick : Binary64 → Decimal) (x : Binary64) : List Char :=
  let size := if x.magnitude = 0 then ['0', '.', '0'] else layout.write (pick x)
  if x.isNegative then '-' :: size else size

end Layout

end LuaBytecode
