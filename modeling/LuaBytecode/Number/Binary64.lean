/-!
# Double-precision numbers as bit patterns

A floating-point constant is kept as the 64 bits that stand for it, so that nothing of it is lost
between reading and writing: the payload of a NaN and the sign of a zero are part of it.  What the
bits mean is read off their three fields.  Every finite number is a whole multiple of `2 ^ -1074`,
so its exact size is a natural number, `magnitude`, counted in that unit.
-/

namespace LuaBytecode

/-- A double-precision number, as its bit pattern. -/
structure Binary64 where
  bits : UInt64
  deriving DecidableEq, Repr, Inhabited

namespace Binary64

/-- The sign bit. -/
def isNegative (x : Binary64) : Bool := 1 <<< 63 ≤ x.bits.toNat

/-- The eleven bits of the exponent. -/
def exponentField (x : Binary64) : Nat := x.bits.toNat >>> 52 % 2048

/-- The fifty-two bits behind the exponent. -/
def fractionField (x : Binary64) : Nat := x.bits.toNat % (1 <<< 52)

/-- Neither a NaN nor an infinity. -/
def isFinite (x : Binary64) : Bool := x.exponentField < 2047

def isNaN (x : Binary64) : Bool := x.exponentField = 2047 ∧ x.fractionField ≠ 0

/-- The whole number that the exponent scales; the leading bit is stored only by a zero exponent. -/
def significand (x : Binary64) : Nat :=
  if x.exponentField = 0 then x.fractionField else (1 <<< 52) + x.fractionField

/-- The distance to the next larger number, in units of `2 ^ -1074`. -/
def gap (x : Binary64) : Nat := 1 <<< (x.exponentField - 1)

/-- The size of a finite number, in units of `2 ^ -1074`. -/
def magnitude (x : Binary64) : Nat := x.significand * x.gap

/-- How many units of `magnitude` make one. -/
def unitsPerOne : Nat := 1 <<< 1074

/-- The distance to the next smaller number, where the significand is the smallest of its exponent,
is half of the distance upwards. -/
def isSmallestOfExponent (x : Binary64) : Bool := x.fractionField = 0 ∧ 1 < x.exponentField

end Binary64

end LuaBytecode
