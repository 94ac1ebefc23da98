import TemplateExpr.Text.Basic

/-!
# Numerals in scientific notation

A numeral is a text that denotes a decimal fraction: an optional sign, digits with at most one
point among or around them, and an optional exponent. Reading keeps the exact value as a whole
number times a power of ten, so nothing is rounded here whatever the length of the text.
-/

namespace TemplateExpr.Text

/-- The exact value `± coeff * 10 ^ exponent`; the sign counts for a zero, too. -/
structure Numeral where
  /-- Whether the text begins with a minus sign. -/
  negative : Bool
  /-- The digits read as one whole number, the point left out. -/
  coeff : Nat
  /-- The power of ten by which the digits are scaled. -/
  exponent : Int

namespace Numeral

/-- Takes a sign off the front of a text and tells whether it was a minus sign. -/
def splitSign : List Char → Bool × List Char
  | '-' :: cs => (true, cs)
  | '+' :: cs => (false, cs)
  | cs => (false, cs)

/-- Takes a point and the digits after it off the front of a text. -/
def splitFraction : List Char → List Char × List Char
  | '.' :: cs => (cs.takeWhile Char.isDigit, cs.dropWhile Char.isDigit)
  | cs => ([], cs)

/-- Reads what follows the digits: nothing, or the letter `e` in either case and a whole number
with an optional sign. -/
def readExponent? : List Char → Option Int
  | [] => some 0
  | c :: cs =>
    if c = 'e' ∨ c = 'E' then
      let (negative, ds) := splitSign cs
      (readDigits? ds).map fun n ↦ if negative then -(n : Int) else n
    else none

/-- Reads a whole text as a numeral; one digit at least has to stand before the exponent. -/
def ofChars? (cs : List Char) : Option Numeral :=
  let (negative, cs) := splitSign cs
  let whole := cs.takeWhile Char.isDigit
  let (fraction, rest) := splitFraction (cs.dropWhile Char.isDigit)
  match readDigits? (whole ++ fraction), readExponent? rest with
  | some coeff, some exponent => some ⟨negative, coeff, exponent - fraction.length⟩
  | _, _ => none

end Numeral

end TemplateExpr.Text
