import TemplateExpr.Binary64.Rounding
import TemplateExpr.Text.Basic

/-!
# The shortest decimal that reads back

Of all decimal fractions that round to a given number of the format, the one to be written lies on
the coarsest grid of a power of ten that has any, and there it is the nearest to the number itself.
Such a fraction has the fewest digits, and its last digit is not zero.

The grids are numbered: grid `n` has the step `10 ^ (n - 324)`. The search begins at a grid whose
step is above the number and all that rounds to it, and goes downwards. The step of grid 0 is below
half of the smallest number, so a point is found there at the latest. All comparisons are between
naturals.
-/

namespace TemplateExpr.Binary64

/-! ## Neighbours of a number -/

/-- Which of two equally near points is taken. -/
inductive Tie where
  /-- The larger one. -/
  | larger
  /-- The one that is an even multiple of the grid's step. -/
  | even

/-- The numbers of the format that lie on either side of a number of units: half of the distance to
each, in quarters of a unit, and whether the halfway points still round to the number. -/
structure Surroundings where
  /-- Half of the distance to the next smaller number, in quarters of a unit. -/
  below : Nat
  /-- Half of the distance to the next larger number, in quarters of a unit. -/
  above : Nat
  /-- Whether the points at these distances round to the number. -/
  closed : Bool

/-- The surroundings of a positive number of units. Below a power of two the numbers of the format
lie twice as close as above it, unless they have reached the distance of one unit. -/
def surroundings (units : Nat) : Surroundings :=
  let shift := excessBits units
  let significand := units >>> shift
  { below := if significand = 1 <<< 52 ∧ 0 < shift then 1 <<< shift else 2 <<< shift
    above := 2 <<< shift
    closed := significand % 2 = 0 }

/-! ## Points of a grid -/

/-- Whether the fraction `point * 10 ^ (grid - 324)` rounds to the given number of units. -/
def readsBack (units grid point : Nat) : Bool :=
  let around := surroundings units
  let value := units * tenPow 324
  let place := point * tenPow grid * one
  let distance := 4 * (if place ≤ value then value - place else place - value)
  let limit := (if place ≤ value then around.below else around.above) * tenPow 324
  distance < limit || (around.closed && distance == limit)

/-- The point of a grid nearest to a number of units, if it rounds to that number. -/
def onGrid? (tie : Tie) (units grid : Nat) : Option Nat :=
  let value := units * tenPow 324
  let step := tenPow grid * one
  let lower := value / step
  let upper := lower + 1
  let rest := 2 * (value - lower * step)
  let lowerFirst := rest < step || (rest == step && match tie with
    | .larger => false
    | .even => lower % 2 == 0)
  if readsBack units grid lower && (lowerFirst || !readsBack units grid upper) then some lower
  else if readsBack units grid upper then some upper
  else none

/-! ## The search -/

/-- The first point that reads back, from a grid downwards, and the grid it is on. -/
def shortestFrom (tie : Tie) (units : Nat) : Nat → Nat × Nat
  | 0 => ((onGrid? tie units 0).getD 0, 0)
  | grid + 1 =>
    ((onGrid? tie units (grid + 1)).map (·, grid + 1)).getD (shortestFrom tie units grid)

/-- A grid whose step is above twice a number of units. If the number is below `2 ^ b` steps of grid
0, then it is below `10 ^ (0.3011 * b)` of them. -/
def coarsestGrid (units : Nat) : Nat :=
  let bits := (units * tenPow 324 / one).log2 + 1
  bits * 3011 / 10000 + 2

/-- The shortest decimal fraction that rounds to a positive number of units, as a whole number and
the power of ten by which it is multiplied. -/
def shortest (tie : Tie) (units : Nat) : Nat × Int :=
  let found := shortestFrom tie units (coarsestGrid units)
  (found.1, found.2 - 324)

end TemplateExpr.Binary64
