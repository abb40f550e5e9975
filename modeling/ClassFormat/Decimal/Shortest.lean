/-
# ClassFormat.Decimal.Shortest: the shortest decimal that reads back

A binary floating-point number stands for an interval of reals: those that round to it.  Its
shortest decimal is the one with the fewest digits in that interval, and of those the nearest to
the number.  All arithmetic is exact, on natural numbers.

A number is `significand * 2 ^ exponent`.  With `c` digits there are two decimals next to it, one
on each side, and if any decimal of that many digits reads back then one of those two does.  So the
search tries one digit, two digits, and so on, and looks at two candidates each time.
-/

namespace ClassFormat.Decimal

/-- The decimal number `coefficient * 10 ^ exponent`. -/
structure Numeral where
  coefficient : Nat
  exponent : Int
  deriving DecidableEq

/-- A fraction of natural numbers. -/
structure Ratio where
  num : Nat
  den : Nat
  deriving DecidableEq

namespace Ratio

/-- The fraction times `base ^ exponent`. -/
def scale (ratio : Ratio) (base : Nat) : Int → Ratio
  | .ofNat exponent => ⟨ratio.num * Nat.pow base exponent, ratio.den⟩
  | .negSucc exponent => ⟨ratio.num, ratio.den * Nat.pow base (exponent + 1)⟩

/-- The largest natural number that is not above the fraction. -/
def floor (ratio : Ratio) : Nat := ratio.num / ratio.den

/-- The smallest `steps` up to `fuel` for which multiplying by ten that often reaches one. -/
def stepsToOne (ratio : Ratio) : (fuel : Nat) → Nat
  | 0 => 0
  | fuel + 1 =>
    if ratio.den ≤ ratio.num then 0 else 1 + stepsToOne ⟨ratio.num * 10, ratio.den⟩ fuel

end Ratio

/-- The reals that round to a number, with the number itself. -/
structure Interval where
  low : Ratio
  value : Ratio
  high : Ratio
  /-- Whether the ends belong to the interval. -/
  closed : Bool

namespace Interval

/-- The same interval in units of `10 ^ unit`. -/
def inUnits (interval : Interval) (unit : Int) : Interval :=
  { interval with
    low := interval.low.scale 10 (-unit)
    value := interval.value.scale 10 (-unit)
    high := interval.high.scale 10 (-unit) }

/-- Whether a natural number lies in the interval. -/
def contains (interval : Interval) (n : Nat) : Bool :=
  if interval.closed then
    interval.low.num ≤ n * interval.low.den && n * interval.high.den ≤ interval.high.num
  else
    interval.low.num < n * interval.low.den && n * interval.high.den < interval.high.num

/-- Of the natural numbers next to the value, the nearest one in the interval; a tie goes up. -/
def nearest? (interval : Interval) : Option Nat :=
  let below := interval.value.floor
  let twice := 2 * (interval.value.num - below * interval.value.den)
  match interval.contains below, interval.contains (below + 1) with
  | true, true => some (if interval.value.den ≤ twice then below + 1 else below)
  | true, false => some below
  | false, true => some (below + 1)
  | false, false => none

/-- The power of ten just above the value: `10 ^ (magnitude - 1) ≤ value < 10 ^ magnitude`. -/
def magnitude (interval : Interval) : Int :=
  if interval.value.den ≤ interval.value.num then
    (Nat.toDigits 10 interval.value.floor).length
  else
    1 - (interval.value.stepsToOne interval.value.den.log2 : Nat)

/-- The first decimal in the interval with `digits` digits or more, up to `fuel` more. -/
def shortestFrom (interval : Interval) (magnitude : Int) : (fuel digits : Nat) → Numeral
  | 0, digits =>
    let unit := magnitude - digits
    ⟨(interval.inUnits unit).value.floor, unit⟩
  | fuel + 1, digits =>
    let unit := magnitude - digits
    match (interval.inUnits unit).nearest? with
    | some coefficient => ⟨coefficient, unit⟩
    | none => shortestFrom interval magnitude fuel (digits + 1)

/-- The shortest decimal in the interval; seventeen digits are enough for any binary number of up
to 53 significant bits. -/
def shortest (interval : Interval) : Numeral := interval.shortestFrom interval.magnitude 17 1

end Interval

end ClassFormat.Decimal
