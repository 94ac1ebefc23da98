/-!
# Rounding to 53 significant bits

A finite binary floating-point number of 64 bits is a whole number of *units*, the unit being the
smallest positive one, `2 ^ (-1074)`. So rounding is arithmetic on natural numbers: a quotient of
naturals, counted in units, goes to the nearest natural with at most 53 significant bits, and a
quotient halfway between two of them goes to the one whose significand is even.

## Main statement

`representable_roundUnits`: the result of rounding is a number of units that a finite number of the
format can have, unless it is too large. Rounding up may carry into a bit more, and then the
significand is a power of two, which has bits to spare.
-/

namespace TemplateExpr.Binary64

/-! ## Units -/

def one : Nat := 1 <<< 1074

/-- A number of units from which on a number is too large for the format. -/
def tooLarge : Nat := 1 <<< 2098

/-- What a finite number of the format can be: 53 bits, moved to the left by at most 2045 places. -/
def Representable (units : Nat) : Prop :=
  ∃ significand shift, significand < 1 <<< 53 ∧ shift ≤ 2045 ∧ units = significand <<< shift

/-! ## Rounding -/

/-- How many bits of a natural number are beyond the first 53. -/
def excessBits (n : Nat) : Nat := n.log2 - 52

/-- The natural number nearest to `num / den`; of two the even one. -/
def roundDiv (num den : Nat) : Nat :=
  let floor := num / den
  let rest := 2 * (num % den)
  if rest < den ∨ (rest = den ∧ floor % 2 = 0) then floor else floor + 1

/-- The natural number of at most 53 significant bits nearest to `num / den`; of two the one with
the even significand. -/
def roundUnits (num den : Nat) : Nat :=
  let shift := excessBits (num / den)
  roundDiv num (den <<< shift) <<< shift

/-! ## Rounding stays within the format -/

theorem le_roundDiv (num den : Nat) : num / den ≤ roundDiv num den := by
  grind [roundDiv]

theorem roundDiv_le (num den : Nat) : roundDiv num den ≤ num / den + 1 := by
  grind [roundDiv]

/-- The significand before rounding has at most 53 bits. -/
theorem shiftRight_excessBits_lt (n : Nat) : n >>> excessBits n < 1 <<< 53 := by
  rw [Nat.shiftRight_eq_div_pow, Nat.shiftLeft_eq, Nat.one_mul,
    Nat.div_lt_iff_lt_mul (Nat.two_pow_pos _), ← Nat.pow_add]
  exact Nat.lt_of_lt_of_le Nat.lt_log2_self
    (Nat.pow_le_pow_right (by decide) (by grind [excessBits]))

/-- The significand before rounding has no fewer than 53 bits if any were moved out. -/
theorem le_shiftRight_excessBits {n : Nat} (h : 0 < excessBits n) :
    1 <<< 52 ≤ n >>> excessBits n := by
  have hn : n ≠ 0 := by
    rintro rfl
    simp [excessBits] at h
  rw [Nat.shiftRight_eq_div_pow, Nat.shiftLeft_eq, Nat.one_mul,
    Nat.le_div_iff_mul_le (Nat.two_pow_pos _), ← Nat.pow_add]
  exact Nat.le_trans (Nat.pow_le_pow_right (by decide) (by grind [excessBits]))
    (Nat.log2_self_le hn)

/-- A product with a power of two below another one bounds the exponent. -/
theorem add_lt_of_shiftLeft_lt {m n k : Nat} (h : (1 <<< m) <<< n < 1 <<< k) : m + n < k := by
  simp only [Nat.shiftLeft_eq, Nat.one_mul, ← Nat.pow_add] at h
  exact (Nat.pow_lt_pow_iff_right (by decide)).1 h

theorem representable_roundUnits {num den : Nat} (h : roundUnits num den < tooLarge) :
    Representable (roundUnits num den) := by
  have hlt := shiftRight_excessBits_lt (num / den)
  have hle := @le_shiftRight_excessBits (num / den)
  have hfloor := le_roundDiv num (den <<< excessBits (num / den))
  have hceil := roundDiv_le num (den <<< excessBits (num / den))
  have hdiv : num / (den <<< excessBits (num / den)) = (num / den) >>> excessBits (num / den) := by
    rw [Nat.shiftLeft_eq, Nat.shiftRight_eq_div_pow, Nat.div_div_eq_div_mul]
  rw [hdiv] at hfloor hceil
  simp only [roundUnits, tooLarge] at *
  generalize excessBits (num / den) = shift at *
  generalize roundDiv num (den <<< shift) = significand at *
  have hshift : shift ≤ 2045 := by
    by_cases hzero : shift = 0
    · omega
    have hmul : (1 <<< 52) <<< shift ≤ significand <<< shift := by
      rw [Nat.shiftLeft_eq _ shift, Nat.shiftLeft_eq _ shift]
      exact Nat.mul_le_mul_right _ (Nat.le_trans (hle (by omega)) hfloor)
    have := add_lt_of_shiftLeft_lt (Nat.lt_of_le_of_lt hmul h)
    omega
  by_cases htop : significand < 1 <<< 53
  · exact ⟨significand, shift, htop, hshift, rfl⟩
  · have htop : significand = 1 <<< 53 := by omega
    subst htop
    have := add_lt_of_shiftLeft_lt h
    exact ⟨1 <<< 52, shift + 1, by decide, by omega, by rw [Nat.shiftLeft_succ]; rfl⟩

end TemplateExpr.Binary64
