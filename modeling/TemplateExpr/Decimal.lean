import TemplateExpr.Text.Basic

/-!
# Exact decimal numbers

A decimal number is a whole number of at most 96 bits divided by a power of ten up to the
twenty-eighth. The scale belongs to the number as it was written: `1.5` and `1.50` differ as data
and in print, and `Decimal.beq` compares them by value all the same.

The two bounds are part of the type. A zero has no sign, because the coefficient is an integer.
-/

namespace TemplateExpr

/-- What the coefficient of a decimal number has to be below: `2 ^ 96`. -/
def Decimal.coeffBound : Nat := 1 <<< 96

/-- The decimal number `coeff / 10 ^ scale`. -/
structure Decimal where
  /-- The digits as a whole number. -/
  coeff : Int
  /-- How many of the digits stand after the point. -/
  scale : Nat
  /-- The coefficient takes at most 96 bits. -/
  coeff_lt : coeff.natAbs < Decimal.coeffBound
  /-- At most 28 digits stand after the point. -/
  scale_le : scale ≤ 28

namespace Decimal

/-- The decimal number with a given coefficient and scale, if both are within their bounds. -/
def make? (coeff : Int) (scale : Nat) : Option Decimal :=
  if h : coeff.natAbs < coeffBound ∧ scale ≤ 28 then some ⟨coeff, scale, h.1, h.2⟩ else none

/-- Equality of values: scales may differ. -/
def beq (a b : Decimal) : Bool :=
  a.coeff * tenPow b.scale == b.coeff * tenPow a.scale

instance : BEq Decimal := ⟨beq⟩

/-- Takes trailing zeros off the digits after the point, but none off the whole part. -/
def stripZeros (coeff : Int) : Nat → Int × Nat
  | 0 => (coeff, 0)
  | scale + 1 => if coeff.tmod 10 = 0 then stripZeros (coeff.tdiv 10) scale else (coeff, scale + 1)

theorem natAbs_stripZeros_le (coeff : Int) (scale : Nat) :
    (stripZeros coeff scale).1.natAbs ≤ coeff.natAbs := by
  induction scale generalizing coeff with
  | zero => exact Nat.le_refl _
  | succ scale ih =>
    rw [stripZeros]
    split
    · exact Nat.le_trans (ih _) (by rw [Int.natAbs_tdiv]; exact Nat.div_le_self _ _)
    · exact Nat.le_refl _

theorem scale_stripZeros_le (coeff : Int) (scale : Nat) : (stripZeros coeff scale).2 ≤ scale := by
  induction scale generalizing coeff with
  | zero => exact Nat.le_refl _
  | succ scale ih =>
    rw [stripZeros]
    split
    · exact Nat.le_succ_of_le (ih _)
    · exact Nat.le_refl _

/-- The same number with no zero at the end of its fraction. -/
def normalize (d : Decimal) : Decimal where
  coeff := (stripZeros d.coeff d.scale).1
  scale := (stripZeros d.coeff d.scale).2
  coeff_lt := Nat.lt_of_le_of_lt (natAbs_stripZeros_le _ _) d.coeff_lt
  scale_le := Nat.le_trans (scale_stripZeros_le _ _) d.scale_le

/-- The number in positional notation, with all the digits of its scale. -/
def chars (d : Decimal) : List Char :=
  (if d.coeff < 0 then ['-'] else []) ++ Text.positional d.coeff.natAbs d.scale

end Decimal

end TemplateExpr
