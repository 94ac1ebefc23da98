import TemplateExpr.Proofs.Decimals
import TemplateExpr.Proofs.Nearest

/-!
# Which numbers are kept exactly

A number is meant to be kept exactly whenever some decimal number stands for it, and to become a
binary number otherwise. Reading does not do that for every spelling
(`Lexeme.Number.keptExactly_iff`).

## Two ways to miss it

Reading rounds what stands before the exponent before it looks at the exponent, so a number with too
many places is taken for the decimal number next to it (`Lexeme.Number.not_keptExactly_of_tiny`).
And it moves the point to the right by at most 28 places and to the left by at most as many as are
left of the 28, so a number that a decimal one stands for becomes a binary number if it is spelled
with an exponent beyond that. The theorem has one condition for each of the two, and nothing else
can go wrong.

## The end of the range

What happens at the other end is simple: a number is no literal exactly if the nearest binary number
is infinite (`Lexeme.Number.ofNumber?_eq_none_iff`). No decimal number is as large as that, so the
order in which the two readers are tried does not matter there.
-/

namespace TemplateExpr

open Text Decimal Lexeme

/-! ## What decimal numbers can hold -/

namespace Decimal

variable {v : ℚ} {count : ℕ}

theorem Holds.add_half_lt (h : Holds v) : v + 1 / 2 < 2 ^ 96 := by
  obtain ⟨m, s, hm, -, rfl⟩ := h
  have hle : (m : ℚ) / 10 ^ s ≤ m := div_le_self (Nat.cast_nonneg m) (one_le_pow₀ (by norm_num))
  have hm' : (m : ℚ) + 1 ≤ 2 ^ 96 := mod_cast hm
  linarith

theorem Holds.lt_of_natCast {n : ℕ} (h : Holds n) : n < 2 ^ 96 := by
  have hlt := h.add_half_lt
  have : (n : ℚ) < 2 ^ 96 := by linarith
  exact_mod_cast this

theorem not_holds_of_lt (hpos : 0 < v) (hlt : v * 10 ^ 28 < 1) : ¬ Holds v := by
  rintro ⟨m, s, -, hs, rfl⟩
  have hm : (1 : ℚ) ≤ m := by
    refine mod_cast Nat.one_le_iff_ne_zero.2 fun hzero ↦ ?_
    simp [hzero] at hpos
  rw [div_mul_eq_mul_div, div_lt_one (by positivity)] at hlt
  have hpow : (10 : ℚ) ^ s ≤ 10 ^ 28 := pow_le_pow_right₀ (by norm_num) hs
  nlinarith [pow_pos (by norm_num : (0 : ℚ) < 10) 28]

theorem rounded_of_natCast {k n : ℕ} (h : v * 10 ^ k = n) : rounded v k = n := by
  rw [rounded, h, Nat.floor_eq_iff (by positivity)]
  constructor <;> linarith

theorem Holds.exists_natCast {n : ℕ} (h : Holds v) (hn : v * 10 ^ count = n) :
    ∃ c : ℕ, v * 10 ^ places v count = c := by
  obtain ⟨m, s, hm, hs, rfl⟩ := h
  -- the digits up to some place make up the number, and there is room for that many
  obtain ⟨j, c, hj, hjs, hc⟩ :
      ∃ j c : ℕ, j ≤ min 28 count ∧ j ≤ s ∧ (m : ℚ) / 10 ^ s * 10 ^ j = c := by
    rcases Nat.le_total s count with hle | hle
    · exact ⟨s, m, by omega, le_rfl, div_mul_cancel₀ _ (by positivity)⟩
    · exact ⟨count, n, by omega, hle, hn⟩
  have hle : (m : ℚ) / 10 ^ s * 10 ^ j ≤ m := by
    rw [div_mul_eq_mul_div, div_le_iff₀ (by positivity)]
    gcongr
    norm_num
  have hm' : (m : ℚ) + 1 ≤ 2 ^ 96 := mod_cast hm
  have hplaces : j ≤ places ((m : ℚ) / 10 ^ s) count :=
    Nat.le_findGreatest hj (by linarith)
  obtain ⟨k, hk⟩ := Nat.exists_eq_add_of_le hplaces
  refine ⟨c * 10 ^ k, ?_⟩
  rw [hk, pow_add, ← mul_assoc, hc]
  push_cast
  rfl

end Decimal

namespace Lexeme.Number

variable (n : Number)

/-! ## Numbers before the exponent -/

/-- A number that fits is rounded to itself exactly if some decimal number stands for it. -/
theorem holds_mantissa_iff (h : n.mantissa + 1 / 2 < 2 ^ 96) :
    Holds n.mantissa ↔ rounded n.mantissa n.kept / 10 ^ n.kept = n.mantissa := by
  constructor
  · intro hholds
    obtain ⟨c, hc⟩ := hholds.exists_natCast n.mantissa_mul
    rw [kept, rounded_of_natCast hc, ← hc, mul_div_cancel_right₀ _ (by positivity)]
  · intro heq
    exact ⟨_, _, n.rounded_lt h, n.kept_le, heq.symm⟩

/-- If no decimal number stands for a number, then there is no room for one more digit than are
kept of it, or no place. -/
theorem two_pow_le_of_not_holds (hrange : n.mantissa + 1 / 2 < 2 ^ 96) (h : ¬ Holds n.mantissa)
    (hkept : n.kept < 28) : 2 ^ 96 ≤ 10 * rounded n.mantissa n.kept := by
  have hle := places_le n.mantissa n.decimals.length
  have hlt : n.kept < min 28 n.decimals.length := by
    refine lt_of_le_of_ne hle fun heq ↦ h ?_
    have hall : n.kept = n.decimals.length := by omega
    rw [n.holds_mantissa_iff hrange, hall, rounded_of_natCast n.mantissa_mul, ← n.mantissa_mul,
      mul_div_cancel_right₀ _ (by positivity)]
  have hfull := Nat.findGreatest_is_greatest (P := fun k ↦ n.mantissa * 10 ^ k + 1 / 2 < 2 ^ 96)
    (n := min 28 n.decimals.length) (Nat.lt_succ_self n.kept) hlt
  have hfloor := Nat.lt_floor_add_one (n.mantissa * 10 ^ n.kept + 1 / 2)
  rw [not_lt, pow_succ (10 : ℚ), ← mul_assoc] at hfull
  change _ < (rounded n.mantissa n.kept : ℚ) + 1 at hfloor
  have hnear : (2 ^ 96 : ℚ) < 10 * rounded n.mantissa n.kept + 6 := by linarith
  have hnear' : 2 ^ 96 < 10 * rounded n.mantissa n.kept + 6 := mod_cast hnear
  omega

theorem div_pow_mul_zpow (c k : ℕ) (p : ℤ) : (c : ℚ) / 10 ^ k * 10 ^ p =
    (c * 10 ^ (p - k).toNat : ℕ) / 10 ^ (k - p).toNat := by
  have hten : (10 : ℚ) ≠ 0 := by norm_num
  rcases le_total p k with hle | hle
  · obtain ⟨m, hm⟩ := Int.eq_ofNat_of_zero_le (sub_nonneg.2 hle)
    obtain rfl : p = (k : ℤ) - m := by omega
    rw [Int.toNat_of_nonpos (by omega), sub_sub_cancel, Int.toNat_natCast, zpow_sub₀ hten,
      zpow_natCast, zpow_natCast, pow_zero, mul_one]
    field_simp
  · obtain ⟨m, hm⟩ := Int.eq_ofNat_of_zero_le (sub_nonneg.2 hle)
    obtain rfl : p = (k : ℤ) + m := by omega
    rw [Int.toNat_of_nonpos (by omega : (k : ℤ) - (k + m) ≤ 0), add_sub_cancel_left,
      Int.toNat_natCast, zpow_add₀ hten, zpow_natCast, zpow_natCast, pow_zero, div_one]
    push_cast
    field_simp

/-! ## Numbers that are moved -/

theorem exists_decimal_iff_of_holds (h : Holds n.mantissa) :
    (∃ d, Decimal.ofChars? n.chars = some d) ↔
      Holds n.value ∧ (n.kept : ℤ) - 28 ≤ n.power ∧ n.power ≤ 28 := by
  have hrange := h.add_half_lt
  have hvalue : n.value = (rounded n.mantissa n.kept * 10 ^ (n.power - n.kept).toNat : ℕ) /
      10 ^ (n.kept - n.power).toNat := by
    rw [← div_pow_mul_zpow, (n.holds_mantissa_iff hrange).1 h, value]
  rw [n.exists_decimal_iff]
  constructor
  · rintro ⟨-, hlow, hhigh, hlt⟩
    exact ⟨⟨_, _, hlt, by omega, hvalue⟩, hlow, hhigh⟩
  · rintro ⟨hholds, hlow, hhigh⟩
    refine ⟨hrange, hlow, hhigh, ?_⟩
    rcases le_total n.power n.kept with hle | hle
    · rw [Int.toNat_of_nonpos (by omega), pow_zero, mul_one]
      exact n.rounded_lt hrange
    · rw [Int.toNat_of_nonpos (by omega : (n.kept : ℤ) - n.power ≤ 0), pow_zero, div_one] at hvalue
      exact (hvalue ▸ hholds).lt_of_natCast

theorem exists_decimal_iff_of_not_holds (h : ¬ Holds n.mantissa) :
    (∃ d, Decimal.ofChars? n.chars = some d) ↔
      n.mantissa + 1 / 2 < 2 ^ 96 ∧ (n.kept : ℤ) - 28 ≤ n.power ∧ n.power ≤ n.kept := by
  have hkept := n.kept_le
  rw [n.exists_decimal_iff]
  refine and_congr_right fun hrange ↦ and_congr_right fun hlow ↦ ?_
  constructor
  · rintro ⟨hhigh, hlt⟩
    by_contra hle
    have hfull := n.two_pow_le_of_not_holds hrange h (by omega)
    have hten : 10 ^ 1 ≤ 10 ^ (n.power - n.kept).toNat :=
      Nat.pow_le_pow_right (by decide) (by omega)
    have hmul := Nat.mul_le_mul_left (rounded n.mantissa n.kept) hten
    omega
  · intro hle
    rw [Int.toNat_of_nonpos (by omega), pow_zero, mul_one]
    exact ⟨by omega, n.rounded_lt hrange⟩

/-- The decimal number that is denoted has the value of the text exactly if some decimal number
stands for what is before the exponent. -/
theorem value_eq_iff {d : Decimal} (h : Decimal.ofChars? n.chars = some d) :
    d.value = n.value ↔ Holds n.mantissa := by
  have hrange := (n.exists_decimal_iff.1 ⟨d, h⟩).1
  have hpow : (10 : ℚ) ^ n.power ≠ 0 := zpow_ne_zero _ (by norm_num)
  rw [n.value_of_decimal h, value, mul_left_inj' hpow, n.holds_mantissa_iff hrange]

/-! ## Binary numbers -/

def num : ℕ := n.coeff * tenPow (n.power - n.decimals.length).toNat

def den : ℕ := tenPow (-(n.power - n.decimals.length)).toNat

/-- The binary number that is nearest to the value. -/
def nearest : Binary64 := Binary64.ofRatio false (n.num * Binary64.one) n.den

theorem den_pos : 0 < n.den := tenPow_pos _

theorem value_eq_div : n.value = n.num / n.den := by
  have h := div_pow_mul_zpow n.coeff 0 (n.power - n.decimals.length)
  rw [pow_zero, div_one, Nat.cast_zero, sub_zero, zero_sub] at h
  rw [n.value_eq, h, num, den, tenPow_eq, tenPow_eq]
  push_cast
  rfl

theorem binary64_ofChars?_chars : Binary64.ofChars? n.chars = some n.nearest := by
  rw [Binary64.ofChars?, n.ofChars?_chars]
  exact congrArg some (Binary64.ofNumeral_eq _)

/-- The format ends halfway from its last number to the power of two after that. -/
theorem isFinite_nearest : n.nearest.isFinite = true ↔ n.value < 2 ^ 1024 - 2 ^ 970 := by
  have hexp : 1024 = 970 + 54 := rfl
  have hlarge : Binary64.tooLarge = 2 ^ (970 + 54) * Binary64.one := by
    rw [Binary64.tooLarge_eq, Binary64.one_eq, ← pow_add]
  rw [n.value_eq_div, nearest, Binary64.isFinite_ofRatio, hlarge, hexp]
  exact Binary64.roundUnits_mul_one_lt_iff n.den_pos

theorem value_lt_of_decimal {d : Decimal} (h : Decimal.ofChars? n.chars = some d) :
    n.value < 2 ^ 1024 - 2 ^ 970 := by
  obtain ⟨hrange, -, hpower, -⟩ := n.exists_decimal_iff.1 ⟨d, h⟩
  have hten : (10 : ℚ) ^ n.power ≤ 10 ^ 28 := by
    rw [← zpow_natCast]
    exact zpow_le_zpow_right₀ (by norm_num) hpower
  have hlarge : (2 : ℚ) ^ (54 + 970) = 2 ^ 54 * 2 ^ 970 := pow_add _ _ _
  have hsmall : (2 : ℚ) ^ 200 ≤ 2 ^ 970 := pow_le_pow_right₀ (by norm_num) (by norm_num)
  calc n.value = n.mantissa * 10 ^ n.power := rfl
    _ ≤ 2 ^ 96 * 10 ^ 28 := mul_le_mul (by linarith) hten (by positivity) (by positivity)
    _ < 2 ^ 200 := by norm_num
    _ ≤ 2 ^ (54 + 970) - 2 ^ 970 := by
      rw [hlarge]
      generalize (2 : ℚ) ^ 970 = limit at *
      linarith

/-! ## Literals -/

theorem ofNumber?_chars : Literal.ofNumber? n.chars =
    match Decimal.ofChars? n.chars with
    | some d => some (.number d)
    | none => if n.nearest.isFinite then some (.float n.nearest) else none := by
  rw [Literal.ofNumber?, n.binary64_ofChars?_chars]
  cases Decimal.ofChars? n.chars with
  | some d => rfl
  | none =>
    dsimp only
    split_ifs with h
    · rw [Option.filter_some_pos h]
      rfl
    · rw [Option.filter_some_neg (Bool.eq_false_of_not_eq_true h)]
      rfl

theorem ofNumber?_chars_eq_number_iff {d : Decimal} :
    Literal.ofNumber? n.chars = some (.number d) ↔ Decimal.ofChars? n.chars = some d := by
  rw [n.ofNumber?_chars]
  cases Decimal.ofChars? n.chars with
  | some d' => simp
  | none =>
    dsimp only
    split_ifs <;> simp

theorem ofNumber?_chars_eq_none_iff :
    Literal.ofNumber? n.chars = none ↔ 2 ^ 1024 - 2 ^ 970 ≤ n.value := by
  rw [n.ofNumber?_chars, ← not_lt]
  cases h : Decimal.ofChars? n.chars with
  | some d => simp [n.value_lt_of_decimal h]
  | none => simp [← n.isFinite_nearest]

theorem ofNumber?_chars_eq_float_iff {x : Binary64} :
    Literal.ofNumber? n.chars = some (.float x) ↔
      (¬ ∃ d, Decimal.ofChars? n.chars = some d) ∧ n.nearest.isFinite = true ∧ n.nearest = x := by
  rw [n.ofNumber?_chars]
  cases Decimal.ofChars? n.chars with
  | some d => simp
  | none => simp

theorem float_or_none (h : ¬ ∃ d, Decimal.ofChars? n.chars = some d) :
    (∃ x, Literal.ofNumber? n.chars = some (.float x)) ∨
      Literal.ofNumber? n.chars = none ∧ 2 ^ 1024 - 2 ^ 970 ≤ n.value := by
  rw [← n.ofNumber?_chars_eq_none_iff, and_self, n.ofNumber?_chars_eq_none_iff, ← not_lt,
    ← n.isFinite_nearest]
  by_cases hfinite : n.nearest.isFinite = true
  · exact .inl ⟨_, n.ofNumber?_chars_eq_float_iff.2 ⟨h, hfinite, rfl⟩⟩
  · exact .inr hfinite

/-! ## Exactness -/

/-- A number is kept exactly if it becomes a decimal number just when some decimal number stands for
its value, and then one that does; else it becomes a binary number, or no literal if it is too large
for that. -/
def KeptExactly : Prop :=
  ((∃ d, Literal.ofNumber? n.chars = some (.number d)) ↔ Holds n.value) ∧
    (∀ d, Literal.ofNumber? n.chars = some (.number d) → d.value = n.value) ∧
    (¬ Holds n.value → (∃ x, Literal.ofNumber? n.chars = some (.float x)) ∨
      Literal.ofNumber? n.chars = none ∧ 2 ^ 1024 - 2 ^ 970 ≤ n.value)

/-- Which numbers are kept exactly. If a decimal number stands for the value, one also has to stand
for what is before the exponent, and the exponent has to be one by which the point can be moved. If
none does, then what is before the exponent must not be rounded to a decimal number that can be
moved as far. -/
theorem keptExactly_iff : n.KeptExactly ↔
    (Holds n.value → Holds n.mantissa ∧ (n.kept : ℤ) - 28 ≤ n.power ∧ n.power ≤ 28) ∧
      (¬ Holds n.value → Holds n.mantissa ∨ 2 ^ 96 ≤ n.mantissa + 1 / 2 ∨
        n.power < n.kept - 28 ∨ n.kept < n.power) := by
  simp only [KeptExactly, n.ofNumber?_chars_eq_number_iff]
  constructor
  · rintro ⟨hiff, hvalue, -⟩
    constructor
    · intro hv
      obtain ⟨d, hd⟩ := hiff.2 hv
      have hm := (n.value_eq_iff hd).1 (hvalue d hd)
      exact ⟨hm, ((n.exists_decimal_iff_of_holds hm).1 ⟨d, hd⟩).2⟩
    · intro hv
      by_contra hnot
      push Not at hnot
      obtain ⟨hm, hrange, hmoved⟩ := hnot
      exact hv (hiff.1 ((n.exists_decimal_iff_of_not_holds hm).2 ⟨hrange, hmoved⟩))
  · rintro ⟨hheld, hother⟩
    have hnone (hv : ¬ Holds n.value) : ¬ ∃ d, Decimal.ofChars? n.chars = some d := by
      by_cases hm : Holds n.mantissa
      · exact fun hd ↦ hv ((n.exists_decimal_iff_of_holds hm).1 hd).1
      · rw [n.exists_decimal_iff_of_not_holds hm]
        rintro ⟨hrange, hlow, hhigh⟩
        rcases (hother hv).resolve_left hm with hlarge | hmoved
        · exact not_le.2 hrange hlarge
        · omega
    refine ⟨⟨fun hd ↦ by_contra fun hv ↦ hnone hv hd, fun hv ↦ ?_⟩, fun d hd ↦ ?_,
      fun hv ↦ n.float_or_none (hnone hv)⟩
    · obtain ⟨hm, hmoved⟩ := hheld hv
      exact (n.exists_decimal_iff_of_holds hm).2 ⟨hv, hmoved⟩
    · have hv : Holds n.value := by_contra fun hv ↦ hnone hv ⟨d, hd⟩
      exact (n.value_eq_iff hd).2 (hheld hv).1

/-- A number with one place too many is rounded to zero and is a decimal number all the same. -/
theorem not_keptExactly_of_tiny : ∃ n : Number,
    String.ofList n.chars = "0.00000000000000000000000000001" ∧ ¬ Holds n.value ∧
      (∃ d, Literal.ofNumber? n.chars = some (.number d) ∧ d.value = 0) ∧ ¬ n.KeptExactly := by
  let n : Number := ⟨['0'], '.' :: (List.replicate 28 '0' ++ ['1']), [], by decide,
    .inr ⟨_, by decide +kernel, rfl⟩, .inl rfl⟩
  have hvalue : n.value = 1 / 10 ^ 29 := by
    have hcoeff : n.coeff = 1 := by decide +kernel
    have hplaces : n.decimals.length = 29 := by decide +kernel
    have hpower : n.power = 0 := by decide +kernel
    rw [value, mantissa, hcoeff, hplaces, hpower, zpow_zero, mul_one, Nat.cast_one]
  have hholds : ¬ Holds n.value := by
    rw [hvalue]
    exact not_holds_of_lt (by norm_num) (by norm_num)
  have hread : (Decimal.ofChars? n.chars).map Decimal.coeff = some 0 := by decide +kernel
  obtain ⟨d, hd, hzero⟩ := Option.map_eq_some_iff.1 hread
  have hliteral := n.ofNumber?_chars_eq_number_iff.2 hd
  exact ⟨n, rfl, hholds, ⟨d, hliteral, by simp [Decimal.value, hzero]⟩,
    fun hkept ↦ hholds (hkept.1.1 ⟨d, hliteral⟩)⟩

/-! ## Numbers that are too large -/

theorem cut_chars : cut n.chars =
    if (Literal.ofNumber? n.chars).isSome then .token .number n.chars n.chars []
    else .fault (.invalidNumber (String.ofList n.chars)) [] [] n.chars := by
  obtain ⟨c, cs, hcs, hdigit⟩ := n.whole_append_eq_cons (n.fraction ++ n.exponent)
  have hsplit := n.splitNumber_chars
  rw [chars, hcs] at hsplit ⊢
  rw [cut_of_isDigit hdigit, hsplit]

/-- A number is refused exactly if the binary number nearest to it is infinite, whatever its digits
and its exponent are. -/
theorem ofNumber?_eq_none_iff :
    (Literal.ofNumber? n.chars = none ↔ 2 ^ 1024 - 2 ^ 970 ≤ n.value) ∧
      (Source.ofString (String.ofList n.chars)).tokens =
        if 2 ^ 1024 - 2 ^ 970 ≤ n.value then
          .error ⟨.invalidNumber (String.ofList n.chars), Position.start⟩
        else .ok [⟨.number, String.ofList n.chars, Position.start⟩,
          Token.eof (Position.start.after n.chars)] := by
  refine ⟨n.ofNumber?_chars_eq_none_iff, ?_⟩
  have hblank : ∀ c ∈ n.chars.head?, isBlank c = false := fun c hc ↦
    isBlank_of_isNameChar (isNameChar_of_isDigit (n.isDigit_head_chars c hc))
  have hcut := n.cut_chars
  rw [Source.ofString_ofList]
  split_ifs with h
  · rw [← n.ofNumber?_chars_eq_none_iff] at h
    rw [h, Option.isSome_none, if_neg Bool.false_ne_true] at hcut
    exact Source.tokens_of_fault (s := ⟨_, Position.start⟩) hcut hblank
  · rw [← n.ofNumber?_chars_eq_none_iff, ← ne_eq, Option.ne_none_iff_isSome] at h
    rw [if_pos h] at hcut
    exact Source.tokens_of_cut (s := ⟨_, Position.start⟩) hcut (by decide) hblank

end Lexeme.Number

end TemplateExpr
