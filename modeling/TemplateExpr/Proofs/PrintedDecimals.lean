import TemplateExpr.Proofs.LongestMatch

/-!
# Decimal literals read back

A decimal number is printed with all the digits of its scale, and reading them gives the number with
the same coefficient and the same scale (`Literal.ofNumber?_chars_number`). Numbers of equal value
that differ in the zeros at their end are printed differently, and stay different.

## The bounds of the format

The digits are read one by one into a coefficient of 96 bits and a scale of 28 places. For a number
within these bounds no digit is ever refused or rounded away, however close it is to them, because
the digits read so far are the front of a number that fits.

## Signs

A negative number is read back as well, but its text is no number of a source, where the sign is an
operator. That is the only reason why the printed form of a decimal number is not a lexeme
(`Decimal.isNumber_chars_iff`).
-/

namespace TemplateExpr

open Text Lexeme

namespace Lexeme

/-! ## Printed numbers as lexemes -/

theorem isNumber_positional (coeff scale : ℕ) : IsNumber (positional coeff scale) := by
  obtain ⟨c, cs, hcs, hdigit⟩ := positional_eq_cons coeff scale
  have hsplit := splitNumber_positional coeff scale
  have hnumber := isNumber_splitNumber hdigit cs
  rwa [← hcs, hsplit] at hnumber

end Lexeme

namespace Decimal

/-- The printed form of a decimal number is a number of a source unless it has a sign. -/
theorem isNumber_chars_iff {d : Decimal} : IsNumber d.chars ↔ 0 ≤ d.coeff := by
  constructor
  · intro h
    by_contra hd
    rw [chars, if_pos (not_le.1 hd)] at h
    exact absurd h.isDigit_head (by decide)
  · intro hd
    rw [chars_of_nonneg hd]
    exact isNumber_positional _ _

end Decimal

namespace Literal

/-! ## Literals -/

/-- The printed form of a decimal number that is not negative is a number of a source, is split off
one as a whole, and denotes the number with its coefficient and its scale. -/
theorem ofNumber?_chars_number {d : Decimal} (hd : 0 ≤ d.coeff) :
    IsNumber (number d).chars ∧ splitNumber (number d).chars = ((number d).chars, []) ∧
      ofNumber? (number d).chars = some (number d) := by
  have hnumber : IsNumber (number d).chars := Decimal.isNumber_chars_iff.2 hd
  have hread : Decimal.ofChars? (number d).chars = some d := Decimal.ofChars?_chars d
  refine ⟨hnumber, splitNumber_of_isNumber hnumber, ?_⟩
  rw [ofNumber?, hread]

theorem ofNumber?_chars_number_of_largest :
    let d : Decimal := ⟨79228162514264337593543950335, 28, by decide, by decide⟩
    0 ≤ d.coeff ∧ (number d).text = "7.9228162514264337593543950335" ∧
      IsNumber (number d).chars ∧ splitNumber (number d).chars = ((number d).chars, []) ∧
      ofNumber? (number d).chars = some (number d) := by
  intro d
  have hd : 0 ≤ d.coeff := by decide
  exact ⟨hd, by decide +kernel, ofNumber?_chars_number hd⟩

end Literal

end TemplateExpr
