import LuaBytecode.Number.Binary64

/-!
# Decimal digits of an exact number

Two ways to pick decimal digits for a positive fraction `num / den`.

* `Decimal.rounded` keeps a fixed number of significant digits and rounds the exact value to the
  nearest, a tie going to the even neighbour.
* `Decimal.shortest` keeps as few digits as still single out the double-precision number among all
  others.  It looks at the grids of one, two, … seventeen digits in turn; on each grid only the
  two neighbours of the value can lie in the interval that rounds back to it, and the first grid
  with a hit wins.  Where both neighbours are hits the nearer one is taken.

Both work on natural numbers only, so no digit depends on floating-point arithmetic.
-/

namespace LuaBytecode

/-- A positive decimal number `d.ddd… × 10 ^ exponent`: `digits` holds all its digits without
trailing zeros, and `exponent` is the place of the first. -/
structure Decimal where
  digits : Nat
  exponent : Int
  deriving DecidableEq, Repr, Inhabited

/-- Where a value half-way between two neighbours goes. -/
inductive Tie where
  | toEven
  | up
  deriving DecidableEq, Repr, Inhabited

/-- The quotient of `num` by `den` rounded to the nearest whole number. -/
def roundDiv (tie : Tie) (num den : Nat) : Nat :=
  let q := num / den
  let r := num % den
  if 2 * r < den then q
  else if den < 2 * r then q + 1
  else match tie with
    | .up => q + 1
    | .toEven => if q % 2 = 0 then q else q + 1

/-- How many decimal digits a number has; zero has one. -/
def digitCount (n : Nat) : Nat :=
  if n < 10 then 1 else digitCount (n / 10) + 1
termination_by n
decreasing_by omega

/-- A number without the zeros at its end. -/
def stripZeros (n : Nat) : Nat :=
  if n ≠ 0 ∧ n % 10 = 0 then stripZeros (n / 10) else n
termination_by n
decreasing_by omega

namespace Decimal

/-- The place of the first digit of `num / den`: the greatest `e` with `10 ^ e ≤ num / den`. -/
def leadingPlace (num den : Nat) : Int :=
  if den ≤ num then (digitCount (num / den) : Int) - 1
  else -(digitCount ((den - 1) / num) : Int)

/-- The fraction `num / den` times `10 ^ places`, again as a fraction, together with the factor
that the numerator took. -/
def scale (num den : Nat) (places : Int) : Nat × Nat × Nat :=
  if 0 ≤ places then
    let factor := Nat.pow 10 places.toNat
    (num * factor, den, factor)
  else
    (num, den * Nat.pow 10 (-places).toNat, 1)

/-- Digits picked on the grid of `precision` digits: a carry into one digit more moves the first
place. -/
def ofGrid (precision : Nat) (place : Int) (digits : Nat) : Decimal :=
  ⟨stripZeros digits, if digits < Nat.pow 10 precision then place else place + 1⟩

/-- The fraction `num / den` rounded to `precision` significant digits. -/
def rounded (precision num den : Nat) : Decimal :=
  let place := leadingPlace num den
  let (num, den, _) := scale num den (precision - 1 - place)
  ofGrid precision place (roundDiv .toEven num den)

/-- An interval around an exact value: how far it reaches below and above, in units of the
numerator, and whether its ends belong to it. -/
structure Reach where
  below : Nat
  above : Nat
  withEnds : Bool

/-- Whether a distance stays inside the interval. -/
def Reach.covers (withEnds : Bool) (limit distance : Nat) : Bool :=
  if withEnds then distance ≤ limit else distance < limit

/-- The neighbour of `num / den` on the grid of `precision` digits that lies in the interval; of
two such neighbours the nearer. -/
def onGrid? (tie : Tie) (reach : Reach) (num den precision : Nat) : Option Decimal :=
  let place := leadingPlace num den
  let (num, den, factor) := scale num den (precision - 1 - place)
  let low := num / den
  let r := num % den
  let lowHit := Reach.covers reach.withEnds (reach.below * factor) r
  let highHit := Reach.covers reach.withEnds (reach.above * factor) (den - r)
  let digits? :=
    if lowHit && highHit then some (roundDiv tie num den)
    else if lowHit then some low
    else if highHit then some (low + 1)
    else none
  digits?.map (ofGrid precision place)

/-- The hit on the first grid that has one, `fuel` grids from `precision` digits on. -/
def firstHit? (tie : Tie) (reach : Reach) (num den : Nat) :
    (fuel : Nat) → (precision : Nat) → Option Decimal
  | 0, _ => none
  | fuel + 1, precision =>
      (onGrid? tie reach num den precision).or (firstHit? tie reach num den fuel (precision + 1))

/-- The interval of the reals that round to a number, around the number, in quarters of the unit of
`Binary64.magnitude`: half a gap on either side, and a number whose significand is even owns the
ends. -/
def reachOf (x : Binary64) : Reach where
  below := if x.isSmallestOfExponent then x.gap else 2 * x.gap
  above := 2 * x.gap
  withEnds := x.significand % 2 = 0

/-- The fewest digits that read back as a finite number other than zero.  Seventeen digits always
do. -/
def shortest (tie : Tie) (x : Binary64) : Decimal :=
  let num := 4 * x.magnitude
  let den := 4 * Binary64.unitsPerOne
  (firstHit? tie (reachOf x) num den 17 1).getD (rounded 17 num den)

end Decimal

end LuaBytecode
