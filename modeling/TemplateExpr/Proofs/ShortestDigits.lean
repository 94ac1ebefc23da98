import TemplateExpr.Binary64.Notation
import TemplateExpr.Proofs.Nearest

/-!
# Shortest digits read back

A point of a grid is accepted as the digits of a number when it is near enough to it: within half of
the distance to the next number on its side, and at exactly that distance only if the significand is
even. Such a point is rounded to the number (`roundUnits_of_readsBack`).

## Powers of two

Just below a power of two the numbers lie twice as close as above it, so a point below a power of
two is in another binade than the power, and the two sides have to be told apart there. A point
above it is rounded in the binade of the power, a point below it in the one before, up to the number
at its end (`roundUnits_of_near_power`).

## The search

The search goes from coarse grids to fine ones and ends at the latest on the finest, where the point
before a number is near enough whatever the number is. So whatever the search finds reads back
(`exists_shortest_eq`). That nothing shorter reads back is not asked here.
-/

namespace TemplateExpr.Binary64

/-! ## Numbers in their binade -/

variable {units grid point : ℕ}

/-- The significand of a number. -/
def significand (units : ℕ) : ℕ := units >>> excessBits units

theorem significand_lt (units : ℕ) : significand units < 2 ^ 53 := by
  rw [← one_shiftLeft 53]
  exact shiftRight_excessBits_lt units

theorem le_significand (h : 0 < excessBits units) : 2 ^ 52 ≤ significand units := by
  rw [← one_shiftLeft 52]
  exact le_shiftRight_excessBits h

theorem Representable.significand_mul (h : Representable units) :
    significand units * 2 ^ excessBits units = units := by
  obtain ⟨s, shift, hs, -, rfl⟩ := h
  rw [Nat.shiftLeft_eq] at *
  obtain ⟨-, hle⟩ := excessBits_eq_iff.1 (rfl : excessBits (s * 2 ^ shift) = _)
  have hshift : excessBits (s * 2 ^ shift) ≤ shift := by
    rcases hle with hzero | hle
    · omega
    · have hlt : s * 2 ^ shift < 2 ^ (shift + 53) := by
        rw [Nat.pow_add']
        exact Nat.mul_lt_mul_of_pos_right (by simpa [one_shiftLeft] using hs) (Nat.two_pow_pos _)
      have := (Nat.pow_lt_pow_iff_right (by decide : 1 < 2)).1 (hle.trans_lt hlt)
      omega
  rw [significand, Nat.shiftRight_eq_div_pow]
  exact Nat.div_mul_cancel ((pow_dvd_pow 2 hshift).trans (Dvd.intro_left s rfl))

theorem surroundings_eq (units : ℕ) : surroundings units =
    { below := if significand units = 2 ^ 52 ∧ 0 < excessBits units then 2 ^ excessBits units
        else 2 * 2 ^ excessBits units
      above := 2 * 2 ^ excessBits units
      closed := significand units % 2 = 0 } := by
  simp only [surroundings, significand, Nat.shiftLeft_eq, Nat.one_mul]
  rfl

/-! ## Near points -/

/-- A point at half the distance to the next numbers at most is rounded to the number, if the number
has an even significand wherever the point is exactly that far away. -/
theorem roundUnits_of_near {num den s p : ℕ} (hden : 0 < den) (hs : s < 2 ^ 53)
    (hbinade : p = 0 ∨ 2 ^ (p + 52) * den ≤ num)
    (hbelow : 2 * (s * 2 ^ p * den) ≤ 2 * num + 2 ^ p * den)
    (habove : 2 * num ≤ 2 * (s * 2 ^ p * den) + 2 ^ p * den)
    (htie : 2 * (s * 2 ^ p * den) = 2 * num + 2 ^ p * den ∨
      2 * num = 2 * (s * 2 ^ p * den) + 2 ^ p * den → s % 2 = 0) :
    roundUnits num den = s * 2 ^ p := by
  have hsplit : 2 * s * (den * 2 ^ p) = 2 * (s * 2 ^ p * den) := by ring
  have hD : 0 < den * 2 ^ p := Nat.mul_pos hden (Nat.two_pow_pos _)
  have hlt : num < 2 ^ (p + 53) * den := by
    have hle : (s + 1) * 2 ^ p * den ≤ 2 ^ 53 * 2 ^ p * den := by gcongr; exact hs
    have hpow : 2 ^ (p + 53) * den = 2 ^ 53 * 2 ^ p * den := by ring
    have hsucc : (s + 1) * 2 ^ p * den = s * 2 ^ p * den + 2 ^ p * den := by ring
    rw [Nat.mul_comm] at hD
    omega
  rw [roundUnits_eq hden hlt hbinade, roundDiv_eq hD]
  all_goals rw [hsplit, Nat.mul_comm den]
  all_goals assumption

/-- Just below a power of two the numbers lie twice as close. -/
theorem roundUnits_of_near_power {num den p : ℕ} (hden : 0 < den)
    (hlt : num < 2 ^ (p + 53) * den)
    (hbelow : 2 * (2 ^ (p + 53) * den) ≤ 2 * num + 2 ^ p * den) :
    roundUnits num den = 2 ^ (p + 53) := by
  have hsplit : 2 * 2 ^ 53 * (den * 2 ^ p) = 2 * (2 ^ (p + 53) * den) := by ring
  have hhalf : 2 ^ (p + 53) * den = 2 * (2 ^ (p + 52) * den) := by ring
  have hsmall : 2 ^ p * den ≤ 2 ^ (p + 52) * den :=
    Nat.mul_le_mul_right _ (Nat.pow_le_pow_right (by decide) (by omega))
  rw [roundUnits_eq hden hlt (.inr (by omega)), roundDiv_eq (m := 2 ^ 53), ← Nat.pow_add']
  · exact Nat.mul_pos hden (Nat.two_pow_pos _)
  · rw [hsplit, Nat.mul_comm den]
    exact hbelow
  · rw [hsplit, Nat.mul_comm den]
    omega
  · exact fun _ ↦ by norm_num

/-! ## What is accepted -/

/-- What a point that reads back is known by: how far it may lie below the number and above it. -/
theorem of_readsBack (h : readsBack units grid point = true) :
    let num := point * tenPow grid * one
    let value := units * tenPow 324
    let step := 2 ^ excessBits units * tenPow 324
    (num ≤ value → 2 * value ≤ 2 * num + step ∧
        (2 * value = 2 * num + step → significand units % 2 = 0) ∧
        (significand units = 2 ^ 52 → 0 < excessBits units → 4 * value ≤ 4 * num + step)) ∧
      (value < num → 2 * num ≤ 2 * value + step ∧
        (2 * num = 2 * value + step → significand units % 2 = 0)) := by
  intro num value step
  have hstep : 2 * 2 ^ excessBits units * tenPow 324 = 2 * step := Nat.mul_assoc _ _ _
  simp only [readsBack, surroundings_eq, Bool.or_eq_true, Bool.and_eq_true, decide_eq_true_eq,
    beq_iff_eq] at h
  change (4 * (if num ≤ value then value - num else num - value) <
      (if num ≤ value then _ else _) * tenPow 324) ∨ _ ∧
    4 * (if num ≤ value then value - num else num - value) =
      (if num ≤ value then _ else _) * tenPow 324 at h
  refine ⟨fun hle ↦ ?_, fun hlt ↦ ?_⟩
  · simp only [if_pos hle] at h
    by_cases hpower : significand units = 2 ^ 52 ∧ 0 < excessBits units
    · rw [if_pos hpower] at h
      have hnear : 4 * (value - num) ≤ step := by rcases h with h | ⟨-, h⟩ <;> omega
      exact ⟨by omega, fun _ ↦ by rw [hpower.1]; norm_num, fun _ _ ↦ by omega⟩
    · rw [if_neg hpower, hstep] at h
      exact ⟨by omega, by omega, fun hs hp ↦ absurd ⟨hs, hp⟩ hpower⟩
  · simp only [if_neg (Nat.not_le.2 hlt), hstep] at h
    omega

/-- A point that reads back is rounded to the number. -/
theorem roundUnits_of_readsBack (hrep : Representable units)
    (h : readsBack units grid point = true) :
    roundUnits (point * tenPow grid * one) (tenPow 324) = units := by
  obtain ⟨hbelow, habove⟩ := of_readsBack h
  have hden : 0 < tenPow 324 := tenPow_pos _
  generalize point * tenPow grid * one = num at *
  generalize tenPow 324 = den at *
  have hunits := hrep.significand_mul
  have hs := significand_lt units
  have hs' := @le_significand units
  generalize significand units = s at *
  generalize excessBits units = p at *
  subst hunits
  have hsucc : (2 ^ 52 + 1) * 2 ^ p * den = 2 ^ (p + 52) * den + 2 ^ p * den := by ring
  have hpow : 2 ^ (p + 52) * den = 2 ^ 52 * 2 ^ p * den := by ring
  rcases Nat.lt_or_ge (s * 2 ^ p * den) num with hlt | hle
  · obtain ⟨hnear, htie⟩ := habove hlt
    refine roundUnits_of_near hden hs ?_ (by omega) hnear fun h ↦ htie (by omega)
    rcases Nat.eq_zero_or_pos p with hp | hp
    · exact .inl hp
    · have : 2 ^ 52 * 2 ^ p * den ≤ s * 2 ^ p * den := by gcongr; exact hs' hp
      omega
  obtain ⟨hnear, htie, hpower⟩ := hbelow hle
  by_cases hs52 : s = 2 ^ 52 ∧ 0 < p
  · obtain ⟨rfl, hp⟩ := hs52
    have hquarter := hpower rfl hp
    rcases hle.lt_or_eq with hlt | heq
    · obtain ⟨q, rfl⟩ := Nat.exists_eq_succ_of_ne_zero hp.ne'
      have hvalue : 2 ^ 52 * 2 ^ (q + 1) = 2 ^ (q + 53) := by ring
      have hstep : 2 ^ (q + 1) * den = 2 * (2 ^ q * den) := by ring
      rw [hvalue] at hlt hquarter ⊢
      rw [hstep] at hquarter
      exact roundUnits_of_near_power hden hlt (by omega)
    · exact roundUnits_of_near hden hs (.inr (by omega)) (by omega) (by omega) fun _ ↦ by norm_num
  · refine roundUnits_of_near hden hs ?_ hnear (by omega) fun h ↦ htie (by omega)
    rcases Nat.eq_zero_or_pos p with hp | hp
    · exact .inl hp
    · have : (2 ^ 52 + 1) * 2 ^ p * den ≤ s * 2 ^ p * den := by
        gcongr
        have := hs' hp
        omega
      omega

/-! ## The search -/

theorem readsBack_of_onGrid? {tie : Tie} (h : onGrid? tie units grid = some point) :
    readsBack units grid point = true := by
  simp only [onGrid?] at h
  split_ifs at h with hlower hupper
  · cases h
    exact (Bool.and_eq_true _ _ ▸ hlower).1
  · cases h
    exact hupper

theorem readsBack_zero (units : ℕ) :
    readsBack units 0 (units * tenPow 324 / (tenPow 0 * one)) = true := by
  have hstep : 4 * one < 2 * tenPow 324 := by decide +kernel
  have hlimit : 2 ≤ (surroundings units).below := by
    rw [surroundings_eq]
    dsimp only
    split_ifs with hpower
    · exact Nat.le_self_pow hpower.2.ne' 2
    · exact Nat.le_mul_of_pos_right 2 (Nat.two_pow_pos _)
  have hdiv := Nat.div_add_mod (units * tenPow 324) one
  have hmod := Nat.mod_lt (units * tenPow 324) one_pos
  have hplace : units * tenPow 324 / one * tenPow 0 * one ≤ units * tenPow 324 := by
    rw [tenPow_zero, Nat.mul_one]
    exact Nat.div_mul_le_self _ _
  rw [tenPow_zero, Nat.one_mul, readsBack]
  simp only [if_pos hplace]
  rw [Bool.or_eq_true, decide_eq_true_eq]
  refine .inl ?_
  calc 4 * (units * tenPow 324 - units * tenPow 324 / one * tenPow 0 * one) < 4 * one := by
        rw [tenPow_zero, Nat.mul_one, Nat.mul_comm (_ / _)]
        omega
    _ ≤ 2 * tenPow 324 := hstep.le
    _ ≤ (surroundings units).below * tenPow 324 := Nat.mul_le_mul_right _ hlimit

theorem exists_onGrid?_zero (tie : Tie) (units : ℕ) :
    ∃ point, onGrid? tie units 0 = some point := by
  have hlower := readsBack_zero units
  simp only [onGrid?, hlower, Bool.true_and]
  cases hupper : readsBack units 0 (units * tenPow 324 / (tenPow 0 * one) + 1) with
  | true =>
    split_ifs with h h'
    · exact ⟨_, rfl⟩
    · exact ⟨_, rfl⟩
    · exact absurd rfl h'
  | false => simp

theorem readsBack_shortestFrom (tie : Tie) (units start : ℕ) {point grid : ℕ}
    (h : shortestFrom tie units start = (point, grid)) : readsBack units grid point = true := by
  induction start with
  | zero =>
    obtain ⟨point', hpoint⟩ := exists_onGrid?_zero tie units
    rw [shortestFrom, hpoint, Option.getD_some, Prod.mk.injEq] at h
    obtain ⟨rfl, rfl⟩ := h
    exact readsBack_of_onGrid? hpoint
  | succ start ih =>
    rw [shortestFrom] at h
    cases hpoint : onGrid? tie units (start + 1) with
    | some point' =>
      rw [hpoint, Option.map_some, Option.getD_some, Prod.mk.injEq] at h
      obtain ⟨rfl, rfl⟩ := h
      exact readsBack_of_onGrid? hpoint
    | none =>
      rw [hpoint] at h
      exact ih h

/-! ## Shortest digits -/

/-- The shortest digits are a point of some grid that reads back. -/
theorem exists_shortest_eq (tie : Tie) (units : ℕ) : ∃ point grid : ℕ,
    shortest tie units = (point, (grid : ℤ) - 324) ∧ readsBack units grid point = true := by
  obtain ⟨found, hfound⟩ :
      ∃ found, shortestFrom tie units (coarsestGrid units) = found := ⟨_, rfl⟩
  exact ⟨found.1, found.2, by rw [shortest, hfound], readsBack_shortestFrom tie units _ hfound⟩

end TemplateExpr.Binary64
