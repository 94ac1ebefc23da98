import TemplateExpr.Binary64.Rounding
import TemplateExpr.Text.Numeral

/-!
# Binary floating-point numbers of 64 bits

The numbers that are not read as decimal ones are kept in the binary format of 64 bits.

## Exact data

The type is exact data: a sign and a whole number of units, with the proof that 53 significant bits
are enough for it. Nothing is computed by the machine's own floating-point arithmetic, so every
statement about these numbers is a statement about natural numbers.

## Reading

Reading a numeral rounds its exact value once, to the nearest number of the format. A value from
`2 ^ 1024 - 2 ^ 970` on is nearer to `2 ^ 1024` than to any number of the format and becomes
infinite.
-/

namespace TemplateExpr

/-! ## Numbers of the format -/

/-- A number in the binary format of 64 bits. -/
inductive Binary64 where
  /-- A finite number, counted in units of `2 ^ (-1074)`. -/
  | finite (negative : Bool) (units : Nat) (representable : Binary64.Representable units)
  /-- An infinity. -/
  | infinite (negative : Bool)
  /-- Not a number. -/
  | nan

namespace Binary64

def isFinite : Binary64 → Bool
  | finite .. => true
  | _ => false

/-- Equality of values: both zeros are equal, and a NaN equals nothing. -/
def beq : Binary64 → Binary64 → Bool
  | finite negative units _, finite negative' units' _ =>
    units == units' && (units == 0 || negative == negative')
  | infinite negative, infinite negative' => negative == negative'
  | _, _ => false

instance : BEq Binary64 := ⟨beq⟩

/-! ## Reading -/

/-- The number nearest to `num / den` units. -/
def ofRatio (negative : Bool) (num den : Nat) : Binary64 :=
  if h : roundUnits num den < tooLarge then
    finite negative (roundUnits num den) (representable_roundUnits h)
  else infinite negative

/-- The number nearest to the value of a numeral.

The first two cases are those in which the exponent alone decides; they keep the powers of ten in
the other two within the size of the numeral itself. The largest finite number is below `10 ^ 309`,
half of the smallest positive one above `10 ^ (-324)`, and `coeff` below `10 ^ (log2 coeff + 1)`. -/
def ofNumeral (n : Text.Numeral) : Binary64 :=
  if n.coeff = 0 ∨ n.exponent < -(n.coeff.log2 + 325) then ofRatio n.negative 0 1
  else if 309 ≤ n.exponent then infinite n.negative
  else if 0 ≤ n.exponent then ofRatio n.negative (n.coeff * tenPow n.exponent.toNat * one) 1
  else ofRatio n.negative (n.coeff * one) (tenPow (-n.exponent).toNat)

/-- Reads the words for the numbers that are not finite, in either case of each letter. -/
def ofWord? (cs : List Char) : Option Binary64 :=
  let (negative, cs) := Text.Numeral.splitSign cs
  let word := cs.map Char.toLower
  if word = ['i', 'n', 'f'] ∨ word = ['i', 'n', 'f', 'i', 'n', 'i', 't', 'y'] then
    some (infinite negative)
  else if word = ['n', 'a', 'n'] then some nan
  else none

def ofChars? (cs : List Char) : Option Binary64 :=
  match Text.Numeral.ofChars? cs with
  | some n => some (ofNumeral n)
  | none => ofWord? cs

end Binary64

end TemplateExpr
