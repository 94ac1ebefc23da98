import TemplateExpr.Proofs.Exactness
import TemplateExpr.Proofs.NormalForm
import TemplateExpr.Proofs.ShortestDigits

/-!
# Binary literals read back

A binary number is printed in positional notation with its shortest digits, and these are rounded to
the number again. Whether they are read as a binary number is another question. What is printed has
no exponent, so it is a decimal number as soon as it is less than `2 ^ 96` by one half, however many
places it has. A binary literal is read back exactly if it is no less than `2 ^ 96`
(`Literal.ofNumber?_chars_float`); the others are numbers that became binary ones for their
exponent, and they become decimal numbers.

## The bound

The bound is a number of the format. What is rounded to less lies below it by far more than one
half, and what is rounded to more lies above it. For the bound itself the digits that are printed
are larger than the number, so the half never matters: digits that are rounded to a number lie on
the same side of the bound as the number (`Binary64.value_printed_lt_iff`).

## Which digits are printed

Only two things are used of the shortest digits, that they are rounded to the number again and what
they are for the bound. How they are found has no part in it.
-/

namespace TemplateExpr

open Text Decimal Lexeme

/-! ## Numbers in positional notation -/

namespace Lexeme.Number

/-- The number `coeff / 10 ^ scale` as it is written. -/
def ofPositional (coeff scale : ℕ) : Number where
  whole := digits (coeff / tenPow scale)
  fraction := if scale = 0 then [] else '.' :: paddedDigits scale coeff
  exponent := []
  isDigits_whole := ⟨Nat.toDigits_ne_nil, fun _ ↦ isDigit_of_mem_digits⟩
  isFraction_fraction := by
    split_ifs with h
    · exact .inl rfl
    · refine .inr ⟨_, ⟨?_, fun _ ↦ isDigit_of_mem_paddedDigits⟩, rfl⟩
      rw [← List.length_pos_iff, length_paddedDigits]
      exact Nat.pos_of_ne_zero h
  isExponent_exponent := .inl rfl

section Positional

variable (coeff scale : ℕ)

theorem chars_ofPositional : (ofPositional coeff scale).chars = positional coeff scale := by
  cases scale with
  | zero => simp [chars, ofPositional, positional]
  | succ scale => simp [chars, ofPositional, positional]

theorem decimals_ofPositional : (ofPositional coeff scale).decimals = paddedDigits scale coeff := by
  cases scale with
  | zero => rfl
  | succ scale => rfl

theorem length_decimals_ofPositional : (ofPositional coeff scale).decimals.length = scale := by
  rw [decimals_ofPositional, length_paddedDigits]

theorem coeff_ofPositional : (ofPositional coeff scale).coeff = coeff := by
  rw [Number.coeff, decimals_ofPositional, Nat.ofDigitChars_append, ofDigitChars_paddedDigits]
  change Nat.ofDigitChars 10 (digits (coeff / tenPow scale)) 0 * _ + _ = coeff
  rw [digits, Nat.ofDigitChars_ten_toDigits, Nat.div_add_mod']

theorem power_ofPositional : (ofPositional coeff scale).power = 0 := rfl

theorem value_ofPositional : (ofPositional coeff scale).value = coeff / 10 ^ scale := by
  rw [value, mantissa, coeff_ofPositional, length_decimals_ofPositional, power_ofPositional,
    zpow_zero, mul_one]

theorem nearest_ofPositional : (ofPositional coeff scale).nearest =
    Binary64.ofRatio false (coeff * Binary64.one) (tenPow scale) := by
  rw [nearest, num, den, coeff_ofPositional, length_decimals_ofPositional, power_ofPositional,
    zero_sub, neg_neg, Int.toNat_natCast, Int.toNat_of_nonpos (by omega), tenPow_zero, mul_one]

end Positional

theorem exists_decimal_iff_of_power_eq_zero {n : Number} (h : n.power = 0) :
    (∃ d, Decimal.ofChars? n.chars = some d) ↔ n.value + 1 / 2 < 2 ^ 96 := by
  have hkept := n.kept_le
  rw [n.exists_decimal_iff, value, h, zpow_zero, mul_one, Int.toNat_of_nonpos (by omega), pow_zero,
    mul_one]
  exact ⟨And.left, fun hrange ↦ ⟨hrange, by omega, by omega, n.rounded_lt hrange⟩⟩

end Lexeme.Number

/-! ## Binary numbers as they are printed -/

namespace Binary64

variable {units : ℕ}

theorem plainDigits_eq (coeff : ℕ) (exponent : ℤ) : plainDigits coeff exponent =
    positional (coeff * tenPow exponent.toNat) (-exponent).toNat := by
  rw [plainDigits]
  split_ifs with h
  · rw [Int.toNat_of_nonpos (by omega : -exponent ≤ 0), positional]
  · rw [Int.toNat_of_nonpos (by omega : exponent ≤ 0), tenPow_zero, mul_one]

theorem roundUnits_tenPow_sub (point m n unit : ℕ) :
    roundUnits (point * tenPow ((m : ℤ) - n).toNat * unit) (tenPow (-((m : ℤ) - n)).toNat) =
      roundUnits (point * tenPow m * unit) (tenPow n) := by
  have hm : tenPow ((m : ℤ) - n).toNat * tenPow (min m n) = tenPow m := by
    rw [← tenPow_add]
    congr 1
    omega
  have hn : tenPow (-((m : ℤ) - n)).toNat * tenPow (min m n) = tenPow n := by
    rw [← tenPow_add]
    congr 1
    omega
  rw [← roundUnits_mul_right (tenPow_pos (min m n)), hn, ← hm]
  congr 1
  ring

/-! ## Shortest digits -/

/-- The shortest digits of a number of units as a number. -/
def printed (units : ℕ) : Number :=
  .ofPositional ((shortest .larger units).1 * tenPow (shortest .larger units).2.toNat)
    (-(shortest .larger units).2).toNat

theorem chars_printed (hrep : Representable units) (hpos : units ≠ 0) :
    (printed units).chars = (finite false units hrep).chars := by
  -- what the search finds is given a name, so that no step opens the search itself
  obtain ⟨found, hfound⟩ : ∃ found, shortest .larger units = found := ⟨_, rfl⟩
  rw [printed, Number.chars_ofPositional, ← plainDigits_eq, chars, if_neg hpos, hfound]
  rfl

/-- The number that is printed is rounded to the units again. -/
theorem nearest_printed (hrep : Representable units) :
    (printed units).nearest = finite false units hrep := by
  obtain ⟨point, grid, hshortest, hreads⟩ := exists_shortest_eq .larger units
  have hround := roundUnits_of_readsBack hrep hreads
  rw [← roundUnits_tenPow_sub, Nat.cast_ofNat] at hround
  rw [printed, hshortest, Number.nearest_ofPositional, ofRatio,
    dif_pos (by rw [hround]; exact hrep.lt_tooLarge)]
  simp only [hround]

theorem roundUnits_of_nearest {n : Number} {negative : Bool} {hrep : Representable units}
    (h : n.nearest = finite negative units hrep) : roundUnits (n.num * one) n.den = units := by
  rw [Number.nearest, ofRatio] at h
  split_ifs at h
  exact (finite.inj h).2

/-! ## Across the bound -/

/-- A number that is rounded to less than `2 ^ 96` is by more than one half less than that. -/
theorem add_half_lt_of_nearest {n : Number} {hrep : Representable units}
    (h : n.nearest = finite false units hrep) (hlt : units < 2 ^ 96 * one) :
    n.value + 1 / 2 < 2 ^ 96 := by
  have hexp : 96 = 42 + 54 := rfl
  rw [← roundUnits_of_nearest h, hexp, roundUnits_mul_one_lt_iff n.den_pos, ← n.value_eq_div] at hlt
  norm_num at hlt ⊢
  linarith

theorem le_value_of_nearest {n : Number} {hrep : Representable units}
    (h : n.nearest = finite false units hrep) (hlt : 2 ^ 96 * one < units) :
    2 ^ 96 ≤ n.value := by
  have hden : (0 : ℚ) < n.den := mod_cast n.den_pos
  by_contra hvalue
  rw [not_le, n.value_eq_div, div_lt_iff₀ hden] at hvalue
  have hround : roundUnits (n.num * one) n.den ≤ 2 ^ (42 + 54) * one :=
    roundUnits_mul_one_le n.den_pos (mod_cast hvalue)
  rw [roundUnits_of_nearest h] at hround
  exact absurd hlt (not_lt.2 hround)

/-- The digits that are printed for `2 ^ 96` make up a larger number. -/
theorem le_value_printed_limit : 2 ^ 96 ≤ (printed (2 ^ 96 * one)).value := by
  have hshortest : shortest .larger (2 ^ 96 * one) = (7922816251426434, 13) := by decide +kernel
  have hpos : (13 : ℤ).toNat = 13 := rfl
  have hneg : (-13 : ℤ).toNat = 0 := rfl
  rw [printed, hshortest, Number.value_ofPositional, hpos, hneg, tenPow_eq]
  norm_num

/-- Rounding to the shortest digits does not lead across `2 ^ 96`. -/
theorem value_printed_lt_iff (hrep : Representable units) :
    (printed units).value + 1 / 2 < 2 ^ 96 ↔ units < 2 ^ 96 * one := by
  have hnearest := nearest_printed hrep
  have hout {v : ℚ} (hv : 2 ^ 96 ≤ v) : ¬ v + 1 / 2 < 2 ^ 96 := by linarith
  rcases Nat.lt_trichotomy units (2 ^ 96 * one) with hlt | rfl | hgt
  · exact iff_of_true (add_half_lt_of_nearest hnearest hlt) hlt
  · exact iff_of_false (hout le_value_printed_limit) (lt_irrefl _)
  · exact iff_of_false (hout (le_value_of_nearest hnearest hgt)) (Nat.lt_asymm hgt)

/-- The number that a finite binary number stands for; zero stands in for the others. -/
def value : Binary64 → ℚ
  | finite negative units _ => (if negative then -1 else 1) * units / one
  | _ => 0

theorem value_lt_iff (hrep : Representable units) :
    (finite false units hrep).value < 2 ^ 96 ↔ units < 2 ^ 96 * one := by
  have hone : (0 : ℚ) < one := mod_cast one_pos
  have hvalue : (finite false units hrep).value = units / one := by
    rw [value, if_neg Bool.false_ne_true, one_mul]
  rw [hvalue, div_lt_iff₀ hone]
  exact_mod_cast Iff.rfl

end Binary64

/-! ## Binary literals -/

namespace Literal

theorem ofNumber?_zero (hrep : Binary64.Representable 0) :
    IsNumber (float (.finite false 0 hrep)).chars ∧
      ∃ d, ofNumber? (float (.finite false 0 hrep)).chars = some (number d) :=
  ⟨⟨['0'], [], [], by decide, .inl rfl, .inl rfl, rfl⟩, _, rfl⟩

/-- A binary literal is printed as a number. It is read as the same literal if it is no less than
`2 ^ 96`, and as a decimal one otherwise. -/
theorem ofNumber?_chars_float {n : Number} {x : Binary64}
    (h : ofNumber? n.chars = some (float x)) :
    IsNumber (float x).chars ∧
      (ofNumber? (float x).chars = some (float x) ↔ 2 ^ 96 ≤ x.value) ∧
      (x.value < 2 ^ 96 → ∃ d, ofNumber? (float x).chars = some (number d)) := by
  have hhead : n.chars.head?.any Char.isDigit = true := by
    obtain ⟨c, cs, hcs, hdigit⟩ := n.whole_append_eq_cons (n.fraction ++ n.exponent)
    rw [Number.chars, hcs]
    exact hdigit
  obtain ⟨units, hrep, rfl⟩ := nonNegative_of_ofNumber? hhead h
  rw [Binary64.value_lt_iff, ← not_lt, Binary64.value_lt_iff]
  by_cases hpos : units = 0
  · subst hpos
    obtain ⟨hnumber, d, hd⟩ := ofNumber?_zero hrep
    have hlt : 0 < 2 ^ 96 * Binary64.one := Nat.mul_pos (by norm_num) Binary64.one_pos
    exact ⟨hnumber, iff_of_false (by rw [hd]; simp) (not_not.2 hlt), fun _ ↦ ⟨d, hd⟩⟩
  have hchars : (float (.finite false units hrep)).chars = (Binary64.printed units).chars :=
    (Binary64.chars_printed hrep hpos).symm
  have hnearest := Binary64.nearest_printed hrep
  have hdecimal := Number.exists_decimal_iff_of_power_eq_zero (n := Binary64.printed units) rfl
  rw [Binary64.value_printed_lt_iff hrep] at hdecimal
  rw [hchars, Number.ofNumber?_chars_eq_float_iff, hnearest, hdecimal]
  simp only [Number.ofNumber?_chars_eq_number_iff, hdecimal]
  exact ⟨(Binary64.printed units).isNumber_chars, and_iff_left ⟨rfl, trivial⟩, id⟩

theorem exists_float_of_kindName {v : Option Literal} (h : v.map kindName = some "Float") :
    ∃ x, v = some (float x) := by
  obtain ⟨v, rfl, hv⟩ := Option.map_eq_some_iff.1 h
  cases v with
  | float x => exact ⟨x, rfl⟩
  | number _ | string _ | boolean _ | null => simp [kindName] at hv

theorem ofNumber?_chars_float_of_large : ∃ (n : Number) (x : Binary64),
    String.ofList n.chars = "1e29" ∧ ofNumber? n.chars = some (float x) ∧
      IsNumber (float x).chars ∧ 2 ^ 96 ≤ x.value ∧
      ofNumber? (float x).chars = some (float x) := by
  let n : Number := ⟨['1'], [], ['e', '2', '9'], by decide, .inl rfl,
    .inr ⟨'e', [], ['2', '9'], .inl rfl, List.mem_cons_self, by decide, rfl⟩⟩
  have hread : (ofNumber? n.chars).map kindName = some "Float" := by decide +kernel
  have hagain : ((ofNumber? n.chars).bind fun v ↦ ofNumber? v.chars).map kindName =
      some "Float" := by decide +kernel
  obtain ⟨x, hx⟩ := exists_float_of_kindName hread
  obtain ⟨hnumber, hiff, hsmall⟩ := ofNumber?_chars_float hx
  have hle : 2 ^ 96 ≤ x.value := by
    by_contra hlt
    obtain ⟨d, hd⟩ := hsmall (not_le.1 hlt)
    simp [hx, hd, kindName] at hagain
  exact ⟨n, x, rfl, hx, hnumber, hle, hiff.2 hle⟩

/-- A number that is printed with too many places for a decimal one is read as zero. -/
theorem not_ofNumber?_chars_float_of_tiny : ∃ x : Binary64,
    ofNumber? ['1', 'e', '-', '3', '0'] = some (float x) ∧
      String.ofList (float x).chars = "0.000000000000000000000000000001" ∧
      ofNumber? (float x).chars ≠ some (float x) ∧
      ∃ d, ofNumber? (float x).chars = some (number d) ∧ d.value = 0 := by
  have hread : (ofNumber? ['1', 'e', '-', '3', '0']).map kindName = some "Float" := by
    decide +kernel
  have htext : (ofNumber? ['1', 'e', '-', '3', '0']).map text =
      some "0.000000000000000000000000000001" := by
    decide +kernel
  have hagain : ((ofNumber? ['1', 'e', '-', '3', '0']).bind fun v ↦
      Decimal.ofChars? v.chars).map Decimal.coeff = some 0 := by
    decide +kernel
  obtain ⟨x, hx⟩ := exists_float_of_kindName hread
  rw [hx] at htext hagain
  obtain ⟨d, hd, hzero⟩ := Option.map_eq_some_iff.1 hagain
  have hnumber : ofNumber? (float x).chars = some (number d) := by
    rw [ofNumber?, show Decimal.ofChars? (float x).chars = some d from hd]
  exact ⟨x, hx, Option.some.inj htext, by simp [hnumber], d, hnumber,
    by simp [Decimal.value, hzero]⟩

end Literal

end TemplateExpr
