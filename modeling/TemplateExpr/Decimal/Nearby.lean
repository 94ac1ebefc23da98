import TemplateExpr.Binary64
import TemplateExpr.Decimal

/-!
# A binary number near a decimal one

JSON has no exact fractions, so a decimal number that is not a small whole number is written there
as a binary one. The conversion goes by steps, each rounded: the quotient of the fraction's digits,
its sum with the whole part, and a last rounding of that sum to the places that the decimal number
has. The outcome is near the decimal number but not always the nearest one: `1 / 10 ^ 28` becomes
`1.0000000000000001e-28`.

All steps act on non-negative numbers far below the largest one, so they are functions on numbers
of units.
-/

namespace TemplateExpr

namespace Binary64

/-! ## Arithmetic that rounds -/

/-- The number of units nearest to a natural number. -/
def unitsOfNat (n : Nat) : Nat := roundUnits (n * one) 1

def addUnits (a b : Nat) : Nat := roundUnits (a + b) 1

def mulUnits (a b : Nat) : Nat := roundUnits (a * b) one

def divUnits (a b : Nat) : Nat := roundUnits (a * one) b

/-- The whole number nearest to a number of units, in units; a half goes up. -/
def wholeUnits (a : Nat) : Nat := (2 * a + one) / (2 * one) * one

/-- The power `base ^ n` times `acc` by squaring, each product rounded. There have to be as many
`steps` as `n` has binary digits. -/
def powUnitsFrom : (steps : Nat) → (acc base : Nat) → (n : Nat) → Nat
  | 0, acc, _, _ => acc
  | steps + 1, acc, base, n =>
    let acc := if n % 2 = 1 then mulUnits acc base else acc
    if n / 2 = 0 then acc else powUnitsFrom steps acc (mulUnits base base) (n / 2)

/-- A power of ten, up to the thirty-first. -/
def powTenUnits (n : Nat) : Nat := powUnitsFrom 5 one (unitsOfNat 10) n

end Binary64

namespace Decimal

open Binary64

/-! ## The conversion -/

/-- The size of the binary number near `coeff / 10 ^ scale`, in units. -/
def nearbyUnits (coeff scale : Nat) : Nat :=
  let whole := unitsOfNat (coeff / tenPow scale)
  let fraction := divUnits (unitsOfNat (coeff % tenPow scale)) (unitsOfNat (tenPow scale))
  if fraction = 0 then whole
  else
    let power := powTenUnits scale
    divUnits (wholeUnits (mulUnits (addUnits whole fraction) power)) power

def nearby (d : Decimal) : Binary64 :=
  Binary64.ofRatio (d.coeff < 0) (nearbyUnits d.coeff.natAbs d.scale) 1

end Decimal

end TemplateExpr
