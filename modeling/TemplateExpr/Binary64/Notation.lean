import TemplateExpr.Binary64
import TemplateExpr.Binary64.Shortest
import TemplateExpr.Text.Basic

/-!
# How binary numbers are written

Both notations write the shortest digits that read back. The plain one never uses an exponent and
writes a whole number without a point. The other one is for JSON: a whole number keeps one zero
after its point, and a number whose first digit is beyond the sixteenth place before the point or
the fifth after it is written with an exponent, whose sign is always there.
-/

namespace TemplateExpr.Binary64

/-- The number `coeff * 10 ^ exponent` without an exponent. -/
def plainDigits (coeff : Nat) (exponent : Int) : List Char :=
  if 0 ≤ exponent then Text.digits (coeff * tenPow exponent.toNat)
  else Text.positional coeff (-exponent).toNat

/-- The number `coeff * 10 ^ exponent` with one digit before the point and with an exponent. -/
def exponentDigits (coeff : Nat) (exponent : Int) : List Char :=
  let ds := Text.digits coeff
  let first := exponent + (ds.length - 1 : Nat)
  let mantissa := if ds.length = 1 then ds else ds.take 1 ++ '.' :: ds.drop 1
  mantissa ++ 'e' :: (if first < 0 then '-' else '+') :: Text.digits first.natAbs

/-- The number `coeff * 10 ^ exponent` as JSON has it. -/
def jsonDigits (coeff : Nat) (exponent : Int) : List Char :=
  let first := exponent + ((Text.digits coeff).length - 1 : Nat)
  if -5 ≤ first ∧ first ≤ 15 then
    if 0 ≤ exponent then plainDigits coeff exponent ++ ['.', '0'] else plainDigits coeff exponent
  else exponentDigits coeff exponent

def signed (negative : Bool) (ds : List Char) : List Char :=
  if negative then '-' :: ds else ds

/-- The number without an exponent; the words for what is not finite are `inf` and `NaN`. -/
def chars : Binary64 → List Char
  | finite negative units _ =>
    signed negative <|
      if units = 0 then ['0']
      else
        let (coeff, exponent) := shortest .larger units
        plainDigits coeff exponent
  | infinite negative => signed negative ['i', 'n', 'f']
  | nan => ['N', 'a', 'N']

/-- The number as JSON has it, which knows finite numbers only. -/
def jsonChars : Binary64 → List Char
  | finite negative units _ =>
    signed negative <|
      if units = 0 then ['0', '.', '0']
      else
        let (coeff, exponent) := shortest .even units
        jsonDigits coeff exponent
  | _ => ['n', 'u', 'l', 'l']

end Binary64

end TemplateExpr
