import Mathlib
import TemplateExpr.Binary64

/-!
# Rounding to the nearest binary number

Rounding is division with a rule for the remainder, done in the unit of the binade that the quotient
is in. So what a quotient is rounded to can be said by comparing cross products, and no bit need be
counted: `roundUnits_eq` names the binade, `roundDiv_eq` the multiple of its unit.

Three things follow that are used of numerals. The result depends on the quotient alone
(`roundUnits_mul_right`). It stays below a power of two exactly for what is less than halfway from
the last number before that power to the power itself (`roundUnits_lt_iff`), and this is where the
format ends. And the cases in which reading goes by the exponent alone are cases of the same
rounding (`ofNumeral_eq`).

## Everything in units

Numbers are counted in units of `2 ^ (-1074)`, the least positive number of the format. All others
are multiples of it, so statements about them are about natural numbers, and a quotient comes in
only as a numerator and a denominator. Rational numbers appear where a bound is met from outside.

## Ties

A quotient that is halfway between two numbers is rounded to the one with an even significand. At a
power of two that is the power and not the number before it, which is why what is halfway to the
power is not below it.
-/

namespace TemplateExpr.Binary64

open Text

/-! ## Quotients -/

variable {num den m : ℕ}

/-- A natural number is not above a rounded quotient if the quotient is more than halfway to it, or
exactly halfway and the number is even. -/
theorem le_roundDiv_iff (hden : 0 < den) : m ≤ roundDiv num den ↔
    2 * m * den < 2 * num + den ∨ (2 * m * den = 2 * num + den ∧ m % 2 = 0) := by
  have hdiv := Nat.div_add_mod num den
  have hmod := Nat.mod_lt num hden
  unfold roundDiv
  dsimp only
  generalize num / den = q at *
  generalize num % den = r at *
  subst hdiv
  rcases Nat.lt_trichotomy m (q + 1) with hm | rfl | hm
  · have hle : m * den ≤ q * den := Nat.mul_le_mul_right _ (by omega)
    have hlt : 2 * m * den < 2 * (den * q + r) + den := by nlinarith
    refine iff_of_true ?_ (.inl hlt)
    split_ifs <;> omega
  · have heq : 2 * (q + 1) * den = 2 * (den * q) + 2 * den := by ring
    rw [heq]
    split_ifs <;> omega
  · have hle : (q + 2) * den ≤ m * den := Nat.mul_le_mul_right _ (by omega)
    have hlt : 2 * (den * q + r) + den < 2 * m * den := by nlinarith
    refine iff_of_false ?_ (by omega)
    split_ifs <;> omega

theorem roundDiv_lt_iff (hden : 0 < den) (hm : m % 2 = 0) :
    roundDiv num den < m ↔ 2 * num + den < 2 * m * den := by
  rw [← Nat.not_le, le_roundDiv_iff hden]
  omega

/-- A quotient is rounded to a number that it is at most one half away from, if the number is even
wherever it is exactly that far away. -/
theorem roundDiv_eq (hden : 0 < den) (hbelow : 2 * m * den ≤ 2 * num + den)
    (habove : 2 * num ≤ 2 * m * den + den)
    (htie : 2 * m * den = 2 * num + den ∨ 2 * num = 2 * m * den + den → m % 2 = 0) :
    roundDiv num den = m := by
  have hle : m ≤ roundDiv num den := by
    rw [le_roundDiv_iff hden]
    omega
  have hsucc : 2 * (m + 1) * den = 2 * m * den + 2 * den := by ring
  have hlt : ¬ m + 1 ≤ roundDiv num den := by
    rw [le_roundDiv_iff hden, hsucc]
    omega
  omega

theorem roundDiv_mul_right {k : ℕ} (hk : 0 < k) :
    roundDiv (num * k) (den * k) = roundDiv num den := by
  have hmul : 2 * (num % den * k) = 2 * (num % den) * k := (Nat.mul_assoc _ _ _).symm
  have hlt : 2 * (num % den) * k < den * k ↔ 2 * (num % den) < den := Nat.mul_lt_mul_right hk
  have heq : 2 * (num % den) * k = den * k ↔ 2 * (num % den) = den := Nat.mul_left_inj hk.ne'
  simp only [roundDiv, Nat.mul_div_mul_right _ _ hk, Nat.mul_mod_mul_right, hmul, hlt, heq]

/-! ## Binades

The numbers of the format from `2 ^ (p + 52)` units up to twice as many lie `2 ^ p` units apart; for
`p = 0`, so do all the smaller ones. -/

theorem one_shiftLeft (n : ℕ) : 1 <<< n = 2 ^ n := Nat.one_shiftLeft n

theorem one_eq : one = 2 ^ 1074 := one_shiftLeft 1074

theorem one_pos : 0 < one := by decide +kernel

theorem tooLarge_eq : tooLarge = 2 ^ (2045 + 53) := one_shiftLeft (2045 + 53)

variable {p : ℕ}

theorem excessBits_eq_iff {n : ℕ} :
    excessBits n = p ↔ n < 2 ^ (p + 53) ∧ (p = 0 ∨ 2 ^ (p + 52) ≤ n) := by
  rcases Nat.eq_zero_or_pos n with rfl | hn
  · simp [excessBits, eq_comm]
  · rw [excessBits, ← Nat.log2_lt hn.ne', ← Nat.le_log2 hn.ne']
    omega

/-- A quotient within a binade is rounded to a multiple of the distance of the numbers there. -/
theorem roundUnits_eq (hden : 0 < den) (hlt : num < 2 ^ (p + 53) * den)
    (hle : p = 0 ∨ 2 ^ (p + 52) * den ≤ num) :
    roundUnits num den = roundDiv num (den * 2 ^ p) * 2 ^ p := by
  have hp : excessBits (num / den) = p := by
    rw [excessBits_eq_iff, Nat.div_lt_iff_lt_mul hden, Nat.le_div_iff_mul_le hden]
    exact ⟨hlt, hle⟩
  simp only [roundUnits, hp, Nat.shiftLeft_eq]

/-- Every quotient is within some binade. -/
theorem exists_binade (num : ℕ) (hden : 0 < den) :
    ∃ p, num < 2 ^ (p + 53) * den ∧ (p = 0 ∨ 2 ^ (p + 52) * den ≤ num) := by
  have hp := excessBits_eq_iff.1 (rfl : excessBits (num / den) = _)
  rw [Nat.div_lt_iff_lt_mul hden, Nat.le_div_iff_mul_le hden] at hp
  exact ⟨_, hp⟩

theorem roundUnits_mul_right {k : ℕ} (hk : 0 < k) :
    roundUnits (num * k) (den * k) = roundUnits num den := by
  have hmul : ∀ n, (den * k) <<< n = den <<< n * k := by
    intro n
    rw [Nat.shiftLeft_eq, Nat.shiftLeft_eq, Nat.mul_right_comm]
  simp only [roundUnits, Nat.mul_div_mul_right _ _ hk, hmul, roundDiv_mul_right hk]

theorem roundUnits_zero (den : ℕ) : roundUnits 0 den = 0 := by
  simp [roundUnits, roundDiv, Nat.shiftLeft_eq]

theorem roundUnits_eq_zero (h : 2 * num < den) : roundUnits num den = 0 := by
  have hlt : num < 2 ^ (0 + 53) * den := by omega
  rw [roundUnits_eq (by omega) hlt (.inl rfl), Nat.pow_zero, Nat.mul_one, Nat.mul_one]
  exact roundDiv_eq (by omega) (by omega) (by omega) (by omega)

/-! ## Powers of two -/

theorem significand_bounds (hden : 0 < den) (hlt : num < 2 ^ (p + 53) * den) :
    roundDiv num (den * 2 ^ p) ≤ 2 ^ 53 ∧
      (2 ^ (p + 52) * den ≤ num → 2 ^ 52 ≤ roundDiv num (den * 2 ^ p)) := by
  have hD : 0 < den * 2 ^ p := Nat.mul_pos hden (Nat.two_pow_pos _)
  have hupper : 2 ^ (p + 53) * den = 2 ^ 53 * (den * 2 ^ p) := by ring
  have hlower : 2 ^ (p + 52) * den = 2 ^ 52 * (den * 2 ^ p) := by ring
  rw [hupper, ← Nat.div_lt_iff_lt_mul hD] at hlt
  rw [hlower, ← Nat.le_div_iff_mul_le hD]
  exact ⟨(roundDiv_le _ _).trans hlt, fun hle ↦ hle.trans (le_roundDiv _ _)⟩

/-- Rounding stays below a power of two exactly for what is less than halfway from the last number
before that power to the power itself. -/
theorem roundUnits_lt_iff (hden : 0 < den) :
    roundUnits num den < 2 ^ (p + 53) ↔
      2 * num + 2 ^ p * den < 2 * (2 ^ (p + 53) * den) := by
  obtain ⟨p', hlt, hle⟩ := exists_binade num hden
  obtain ⟨hsig, hsig'⟩ := significand_bounds hden hlt
  have hquarter : 2 ^ p * den ≤ 2 ^ (p + 53) * den :=
    Nat.mul_le_mul_right _ (Nat.pow_le_pow_right (by decide) (by omega))
  rw [roundUnits_eq hden hlt hle]
  rcases Nat.lt_trichotomy p' p with hp | rfl | hp
  · have hpow : 2 ^ (p' + 53) * den ≤ 2 ^ (p + 52) * den :=
      Nat.mul_le_mul_right _ (Nat.pow_le_pow_right (by decide) (by omega))
    have hhalf : 2 ^ (p + 53) * den = 2 * (2 ^ (p + 52) * den) := by ring
    refine iff_of_true ?_ (by omega)
    calc roundDiv num (den * 2 ^ p') * 2 ^ p' ≤ 2 ^ 53 * 2 ^ p' := Nat.mul_le_mul_right _ hsig
      _ = 2 ^ (p' + 53) := by ring
      _ < 2 ^ (p + 53) := Nat.pow_lt_pow_right (by decide) (by omega)
  · have hpow : 2 * 2 ^ 53 * (den * 2 ^ p') = 2 * (2 ^ (p' + 53) * den) := by ring
    have hsplit : roundDiv num (den * 2 ^ p') * 2 ^ p' < 2 ^ (p' + 53) ↔
        roundDiv num (den * 2 ^ p') < 2 ^ 53 := by
      rw [Nat.pow_add', Nat.mul_lt_mul_right (Nat.two_pow_pos _)]
    rw [hsplit, roundDiv_lt_iff (Nat.mul_pos hden (Nat.two_pow_pos _)) (by norm_num), hpow,
      Nat.mul_comm den]
  · have hlow := hle.resolve_left (by omega)
    have hpow : 2 ^ (p + 53) * den ≤ 2 ^ (p' + 52) * den :=
      Nat.mul_le_mul_right _ (Nat.pow_le_pow_right (by decide) (by omega))
    refine iff_of_false (Nat.not_lt.2 ?_) (by omega)
    calc 2 ^ (p + 53) ≤ 2 ^ (p' + 52) := Nat.pow_le_pow_right (by decide) (by omega)
      _ = 2 ^ 52 * 2 ^ p' := by ring
      _ ≤ roundDiv num (den * 2 ^ p') * 2 ^ p' := Nat.mul_le_mul_right _ (hsig' hlow)

theorem roundUnits_le_of_lt (hden : 0 < den) (h : num < 2 ^ (p + 53) * den) :
    roundUnits num den ≤ 2 ^ (p + 53) := by
  obtain ⟨p', hlt, hle⟩ := exists_binade num hden
  obtain ⟨hsig, -⟩ := significand_bounds hden hlt
  have hp : p' ≤ p := by
    rcases hle with rfl | hle
    · exact Nat.zero_le _
    · have hpow := (Nat.pow_lt_pow_iff_right (by decide : 1 < 2)).1
        (Nat.lt_of_mul_lt_mul_right (hle.trans_lt h))
      omega
  rw [roundUnits_eq hden hlt hle]
  calc roundDiv num (den * 2 ^ p') * 2 ^ p' ≤ 2 ^ 53 * 2 ^ p' := Nat.mul_le_mul_right _ hsig
    _ = 2 ^ (p' + 53) := by ring
    _ ≤ 2 ^ (p + 53) := Nat.pow_le_pow_right (by decide) (by omega)

theorem mul_two_pow_lt {s shift k : ℕ} (hs : s < 2 ^ 53) (hshift : shift ≤ k) :
    s * 2 ^ shift < 2 ^ (k + 53) :=
  calc s * 2 ^ shift < 2 ^ 53 * 2 ^ shift := Nat.mul_lt_mul_of_pos_right hs (Nat.two_pow_pos _)
    _ = 2 ^ (shift + 53) := by ring
    _ ≤ 2 ^ (k + 53) := Nat.pow_le_pow_right (by decide) (by omega)

/-- Rounding stays below a power of two, counted in units, exactly for the numbers that are less
than halfway from the last number of the format before that power to the power itself. -/
theorem roundUnits_mul_one_lt_iff {b : ℕ} (hden : 0 < den) :
    roundUnits (num * one) den < 2 ^ (b + 54) * one ↔
      (num : ℚ) / den < 2 ^ (b + 54) - 2 ^ b := by
  rw [one_eq]
  generalize 1074 = a
  have hden' : (0 : ℚ) < den := mod_cast hden
  have hpow : (2 : ℕ) ^ (b + 54) * 2 ^ a = 2 ^ (a + 1 + b + 53) := by ring
  have hscale : ((num : ℚ) / den + 2 ^ b) * (2 ^ (a + 1) * den) <
      2 ^ (b + 54) * (2 ^ (a + 1) * den) ↔ (num : ℚ) / den + 2 ^ b < 2 ^ (b + 54) :=
    mul_lt_mul_iff_of_pos_right (mul_pos (by positivity) hden')
  rw [hpow, roundUnits_lt_iff hden, lt_sub_iff_add_lt, ← hscale, ← Nat.cast_lt (α := ℚ)]
  push_cast
  refine iff_of_eq (congrArg₂ (· < ·) ?_ ?_)
  · field_simp
    ring
  · ring

theorem roundUnits_mul_one_le {b : ℕ} (hden : 0 < den) (h : num < 2 ^ (b + 54) * den) :
    roundUnits (num * one) den ≤ 2 ^ (b + 54) * one := by
  have hmul := Nat.mul_lt_mul_of_pos_right h one_pos
  rw [Nat.mul_right_comm, one_eq] at hmul
  rw [one_eq]
  generalize 1074 = a at *
  have hpow : (2 : ℕ) ^ (b + 54) * 2 ^ a = 2 ^ (a + 1 + b + 53) := by ring
  rw [hpow] at hmul ⊢
  exact roundUnits_le_of_lt hden hmul

/-- What the format can hold is not too large. -/
theorem Representable.lt_tooLarge {units : ℕ} (h : Representable units) : units < tooLarge := by
  obtain ⟨s, shift, hs, hshift, rfl⟩ := h
  rw [one_shiftLeft] at hs
  rw [tooLarge_eq, Nat.shiftLeft_eq]
  exact mul_two_pow_lt hs hshift

/-! ## Where the format ends -/

theorem roundUnits_lt_tooLarge_iff (hden : 0 < den) :
    roundUnits num den < tooLarge ↔ 2 * num + 2 ^ 2045 * den < 2 * (tooLarge * den) := by
  rw [tooLarge_eq]
  exact roundUnits_lt_iff hden

theorem isFinite_ofRatio (negative : Bool) :
    (ofRatio negative num den).isFinite = true ↔ roundUnits num den < tooLarge := by
  rw [ofRatio]
  split_ifs with h
  · exact iff_of_true rfl h
  · exact iff_of_false Bool.false_ne_true h

theorem ofRatio_congr {negative : Bool} {num' den' : ℕ}
    (h : roundUnits num den = roundUnits num' den') :
    ofRatio negative num den = ofRatio negative num' den' := by
  simp only [ofRatio, h]

theorem ofRatio_eq_infinite (negative : Bool) (hden : 0 < den) (h : tooLarge * den ≤ num) :
    ofRatio negative num den = infinite negative := by
  rw [ofRatio, dif_neg]
  rw [roundUnits_lt_tooLarge_iff hden]
  omega

theorem tenPow_le_tenPow {m n : ℕ} (h : m ≤ n) : tenPow m ≤ tenPow n :=
  Nat.pow_le_pow_right (by decide) h

theorem two_mul_lt_tenPow {coeff n : ℕ} (h : coeff.log2 + 326 ≤ n) :
    2 * (coeff * one) < tenPow n := by
  have hunit : 4 * one ≤ tenPow 326 := by decide +kernel
  have hpow : 2 ^ coeff.log2 ≤ tenPow coeff.log2 := Nat.pow_le_pow_left (by decide) _
  have hcoeff : coeff < 2 * 2 ^ coeff.log2 := by
    rw [← Nat.pow_succ']
    exact Nat.lt_log2_self
  calc 2 * (coeff * one) < 2 * (2 * 2 ^ coeff.log2 * one) :=
        Nat.mul_lt_mul_of_pos_left (Nat.mul_lt_mul_of_pos_right hcoeff one_pos) (by decide)
    _ = 2 ^ coeff.log2 * (4 * one) := by ring
    _ ≤ tenPow coeff.log2 * tenPow 326 := Nat.mul_le_mul hpow hunit
    _ = tenPow (coeff.log2 + 326) := (tenPow_add _ _).symm
    _ ≤ tenPow n := tenPow_le_tenPow h

/-- The exponent alone makes a numeral too large. -/
theorem tooLarge_le_mul {coeff n : ℕ} (hcoeff : coeff ≠ 0) (h : 309 ≤ n) :
    tooLarge ≤ coeff * tenPow n * one := by
  have hpow : tooLarge ≤ tenPow 309 * one := by decide +kernel
  calc tooLarge ≤ tenPow 309 * one := hpow
    _ ≤ tenPow n * one := Nat.mul_le_mul_right _ (tenPow_le_tenPow h)
    _ ≤ coeff * tenPow n * one := Nat.mul_le_mul_right _ (Nat.le_mul_of_pos_left _ (by omega))

/-! ## Reading numerals -/

/-- A numeral is read as the number nearest to its value, also where the exponent decides alone. -/
theorem ofNumeral_eq (n : Numeral) : ofNumeral n =
    ofRatio n.negative (n.coeff * tenPow n.exponent.toNat * one) (tenPow (-n.exponent).toNat) := by
  rw [ofNumeral]
  split_ifs with hsmall hlarge hpos
  · refine ofRatio_congr ?_
    rw [roundUnits_zero]
    rcases hsmall with hzero | hexp
    · rw [hzero, Nat.zero_mul, Nat.zero_mul, roundUnits_zero]
    · have hnat : n.exponent.toNat = 0 := by omega
      rw [hnat, tenPow_zero, Nat.mul_one, roundUnits_eq_zero (two_mul_lt_tenPow (by omega))]
  · have hnat : (-n.exponent).toNat = 0 := by omega
    rw [hnat, tenPow_zero, ofRatio_eq_infinite _ Nat.one_pos]
    rw [Nat.mul_one]
    exact tooLarge_le_mul (fun hzero ↦ hsmall (.inl hzero)) (by omega)
  · have hnat : (-n.exponent).toNat = 0 := by omega
    rw [hnat, tenPow_zero]
  · have hnat : n.exponent.toNat = 0 := by omega
    rw [hnat, tenPow_zero, Nat.mul_one]

end TemplateExpr.Binary64
