import HlsEmit.Binary64

/-!
# The fewest digits that read back

Every finite double owns an interval of real numbers that round to it. `Binary64.shortest` finds
the decimal with the fewest digits in that interval, and among those the one nearest to the double
itself.

A decimal of `k` digits lies on the grid of multiples of a power of ten. If any point of a grid
lies in the interval then so does one of the two grid points next to the double, so only these two
are ever tried, on coarser grids first. All comparisons are between natural numbers: both sides are
brought to a common unit first.
-/

namespace HlsEmit

/-- The decimal number `digits * 10 ^ exponent`. -/
structure Decimal where
  /-- The digits, read as a natural number. -/
  digits : Nat
  /-- The power of ten of the last digit. -/
  exponent : Int
deriving DecidableEq, Repr

namespace Decimal

/-- Moves trailing zeros of the digits into the exponent, at most `steps` of them. -/
def stripZeros : (steps : Nat) → Decimal → Decimal
  | 0, d => d
  | steps + 1, d =>
    if d.digits % 10 = 0 then stripZeros steps ⟨d.digits / 10, d.exponent + 1⟩ else d

end Decimal

/-- Which of two equally near and equally short decimals is taken. -/
inductive TieRule where
  /-- The larger one. -/
  | up
  /-- The one whose last digit is even. -/
  | even
deriving DecidableEq, Repr

namespace Binary64

/-- The interval of reals that round to a positive double, in units of `2 ^ (scale - 2)`. -/
structure Interval where
  /-- Lower end: half way to the next smaller double. -/
  low : Nat
  /-- The double itself. -/
  mid : Nat
  /-- Upper end: half way to the next larger double. -/
  high : Nat
  /-- The ends round to the double as well, since ties go to an even significand. -/
  closed : Bool
deriving Repr

/-- The interval of a positive finite double. Below a power of two the doubles are twice as dense,
so there the lower end is nearer. -/
def interval (x : Binary64) : Interval :=
  let m := x.significand
  let step := if x.fractionField = 0 && 1 < x.exponentField then 1 else 2
  ⟨4 * m - step, 4 * m, 4 * m + 2, m % 2 = 0⟩

/-- The unit of `interval` and the grid unit `10 ^ power`, both as multiples of one common unit. -/
def commonUnits (x : Binary64) (power : Int) : Nat × Nat :=
  let twos := x.scale - 2
  (Nat.pow 10 (-power).toNat <<< twos.toNat, Nat.pow 10 power.toNat <<< (-twos).toNat)

/-- The point of the grid of multiples of `10 ^ power` that is in the interval of `x` and nearest
to it, as a multiple of the grid unit. -/
def nearestOnGrid? (tie : TieRule) (x : Binary64) (power : Int) : Option Nat :=
  let i := x.interval
  let (unit, grid) := x.commonUnits power
  let inside (point : Nat) : Bool :=
    let p := point * grid
    if i.closed then i.low * unit ≤ p && p ≤ i.high * unit
    else i.low * unit < p && p < i.high * unit
  let below := i.mid * unit / grid
  let above := below + 1
  let twice := 2 * (i.mid * unit)
  let middle := (below + above) * grid
  match inside below, inside above with
  | false, false => none
  | true, false => some below
  | false, true => some above
  | true, true =>
    if twice < middle then some below
    else if middle < twice then some above
    else match tie with
      | .up => some above
      | .even => some (below + below % 2)

/-- The power of ten of the first digit of a positive finite double. -/
def leadingPower (x : Binary64) : Int :=
  let num := x.significand <<< x.scale.toNat
  let den := 1 <<< (-x.scale).toNat
  if den ≤ num then (digitCount (num / den) : Int) - 1
  else -(digitCount ((den - 1) / num) : Int)

/-- The decimal of fewest digits that reads back to the magnitude of a finite `x`, nearest to it
among those; zero for the two zeros. Seventeen digits always suffice. -/
def shortest (tie : TieRule) (x : Binary64) : Decimal :=
  if x.significand = 0 then ⟨0, 0⟩
  else
    let top := x.leadingPower
    let found := (List.range 17).findSome? fun (k : Nat) =>
      let power := top - k
      (x.nearestOnGrid? tie power).map fun digits => (⟨digits, power⟩ : Decimal)
    (found.getD ⟨x.significand, x.scale⟩).stripZeros 17

end Binary64

end HlsEmit
