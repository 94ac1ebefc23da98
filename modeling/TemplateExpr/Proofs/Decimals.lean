import TemplateExpr.Proofs.Numbers

/-!
# The decimal numbers that texts are read as

Digits are read one by one as long as there is room for them, and the first that has none rounds the
others. What comes of it can be said without the digits (`Lexeme.Number.ofPlain?_eq_some_iff`), and
so can which texts denote decimal numbers at all (`Lexeme.Number.exists_decimal_iff`).

## Where a number is rounded

The number before the exponent is kept at the last place where the number and one half of that place
are still below `2 ^ 96`, of the places that are written and of the 28 that there are, and it is
rounded half up there. When rounding carries out of the 96 bits, one place less is kept, and that is
the same rule: the carry happens just where the number and one half of the place are not below the
bound. So `Decimal.kept?` has no case for it.

The invariant of the digits that have been read is that the number lies between them and the next
number with as many digits. It is what makes the comparison with the bound a comparison of whole
numbers.

## Where the point goes

The exponent then moves the point, and that succeeds only if no kept digit is lost. Both directions
are one operation with a sign (`Decimal.shift?`).
-/

namespace TemplateExpr

open Text Lexeme

/-! ## Digits -/

theorem Text.digit_lt_ten {c : Char} (h : c.isDigit = true) : c.toNat - '0'.toNat < 10 := by
  simp only [Char.isDigit, Bool.and_eq_true, decide_eq_true_eq, UInt32.le_iff_toNat_le] at h
  change c.val.toNat - 48 < 10
  have hle : c.val.toNat ≤ 57 := h.2
  omega

/-- Digits after a number multiply it by a power of ten and add less than that power. -/
theorem Text.ofDigitChars_bounds {cs : List Char} (h : ∀ c ∈ cs, c.isDigit = true) (front : ℕ) :
    front * 10 ^ cs.length ≤ Nat.ofDigitChars 10 cs front ∧
      Nat.ofDigitChars 10 cs front < (front + 1) * 10 ^ cs.length := by
  induction cs generalizing front with
  | nil => simp
  | cons c cs ih =>
    have hdigit := digit_lt_ten (h c List.mem_cons_self)
    obtain ⟨hle, hlt⟩ := ih (fun c hc ↦ h c (List.mem_cons_of_mem _ hc))
      (10 * front + (c.toNat - '0'.toNat))
    rw [Nat.ofDigitChars_cons, List.length_cons, pow_succ]
    generalize c.toNat - '0'.toNat = g at *
    generalize 10 ^ cs.length = p at *
    constructor
    · nlinarith
    · nlinarith

theorem tenPow_eq (n : ℕ) : tenPow n = 10 ^ n := rfl

namespace Decimal

def value (d : Decimal) : ℚ := d.coeff / 10 ^ d.scale

/-- Some decimal number stands for this number, which is not negative. -/
def Holds (v : ℚ) : Prop := ∃ m s : ℕ, m < 2 ^ 96 ∧ s ≤ 28 ∧ v = m / 10 ^ s

/-- How many of some digits after the point are kept: as many as leave room for rounding. -/
def places (v : ℚ) (count : ℕ) : ℕ :=
  Nat.findGreatest (fun k ↦ v * 10 ^ k + 1 / 2 < 2 ^ 96) (min 28 count)

/-- A number in the unit of some place after the point, rounded half up. -/
def rounded (v : ℚ) (k : ℕ) : ℕ := ⌊v * 10 ^ k + 1 / 2⌋₊

/-- What is made of a number that is written with some digits after the point. -/
def kept? (v : ℚ) (count : ℕ) : Option (ℕ × ℕ) :=
  if v + 1 / 2 < 2 ^ 96 then some (rounded v (places v count), places v count) else none

theorem coeffBound_eq : coeffBound = 2 ^ 96 := rfl

/-! ## Places that are kept -/

section Places

variable {v : ℚ} {count k : ℕ}

theorem places_le (v : ℚ) (count : ℕ) : places v count ≤ min 28 count := Nat.findGreatest_le _

theorem places_eq (hv : 0 ≤ v) (hk : k ≤ min 28 count) (hlt : v * 10 ^ k + 1 / 2 < 2 ^ 96)
    (hmax : k < min 28 count → 2 ^ 96 ≤ v * 10 ^ (k + 1) + 1 / 2) : places v count = k := by
  rw [places, Nat.findGreatest_eq_iff]
  refine ⟨hk, fun _ ↦ hlt, fun j hkj hj hfits ↦ ?_⟩
  have hmono : v * 10 ^ (k + 1) ≤ v * 10 ^ j := by
    gcongr
    · norm_num
    · omega
  linarith [hmax (by omega)]

theorem kept?_eq_some {c : ℕ} (hv : 0 ≤ v) (hk : k ≤ min 28 count) (hc : c < 2 ^ 96)
    (hle : c ≤ v * 10 ^ k + 1 / 2) (hlt : v * 10 ^ k + 1 / 2 < c + 1)
    (hmax : k < min 28 count → 2 ^ 96 ≤ v * 10 ^ (k + 1) + 1 / 2) :
    kept? v count = some (c, k) := by
  have hbound : (c : ℚ) + 1 ≤ 2 ^ 96 := mod_cast hc
  have hv' : v ≤ v * 10 ^ k := le_mul_of_one_le_right hv (one_le_pow₀ (by norm_num))
  have hrounded : rounded v k = c :=
    (Nat.floor_eq_iff (le_trans (Nat.cast_nonneg c) hle)).2 ⟨hle, hlt⟩
  rw [kept?, if_pos (by linarith), places_eq hv hk (by linarith) hmax, hrounded]

theorem kept?_eq_none (h : 2 ^ 96 ≤ v + 1 / 2) : kept? v count = none := if_neg (not_lt.2 h)

end Places

/-! ## Reading digits -/

namespace Draft

variable {v : ℚ} {d : Draft} {ds : List Char} {count : ℕ}

/-- A digit without room rounds the number. -/
theorem round?_eq {digit : ℕ} (hv : 0 ≤ v) (hcoeff : d.coeff < coeffBound) (hdigit : digit < 10)
    (hle : (10 * d.coeff + digit : ℕ) ≤ v * 10 ^ (d.scale + 1))
    (hlt : v * 10 ^ (d.scale + 1) < (10 * d.coeff + digit + 1 : ℕ))
    (hscale : d.scale ≤ min 28 count)
    (hmax : d.scale < min 28 count → coeffBound ≤ 10 * d.coeff + digit) :
    d.round? digit = kept? v count := by
  rw [coeffBound_eq] at hcoeff hmax
  have hmax' : d.scale < min 28 count → (2 : ℚ) ^ 96 ≤ v * 10 ^ (d.scale + 1) + 1 / 2 := by
    intro hs
    have hbound : (2 : ℚ) ^ 96 ≤ (10 * d.coeff + digit : ℕ) := mod_cast hmax hs
    linarith
  rw [pow_succ, ← mul_assoc] at hle hlt
  push_cast at hle hlt
  have hten : (digit : ℚ) + 1 ≤ 10 := mod_cast hdigit
  rw [round?, coeffBound_eq]
  split_ifs with hlow hroom hzero
  · have hlow : (digit : ℚ) ≤ 4 := mod_cast Nat.le_of_lt_succ hlow
    exact (kept?_eq_some hv hscale hcoeff (by linarith) (by linarith) hmax').symm
  · have hlow : (5 : ℚ) ≤ digit := mod_cast Nat.le_of_not_lt hlow
    exact (kept?_eq_some hv hscale hroom (by push_cast; linarith) (by push_cast; linarith)
      hmax').symm
  -- the coefficient is the largest one, and rounding up makes it `2 ^ 96`
  · have hlow : (5 : ℚ) ≤ digit := mod_cast Nat.le_of_not_lt hlow
    have htop : (d.coeff : ℚ) + 1 = 2 ^ 96 := mod_cast (by omega : d.coeff + 1 = 2 ^ 96)
    rw [hzero, pow_zero, mul_one] at hle
    exact (kept?_eq_none (by linarith)).symm
  · have hlow : (5 : ℚ) ≤ digit := mod_cast Nat.le_of_not_lt hlow
    have htop : d.coeff + 1 = 2 ^ 96 := by omega
    have htop' : (d.coeff : ℚ) + 1 = 2 ^ 96 := mod_cast htop
    obtain ⟨s, hs⟩ := Nat.exists_eq_succ_of_ne_zero hzero
    have hcarry : 10 * ((d.coeff + 5) / 10) = d.coeff + 5 := by omega
    have hcarry' : (10 : ℚ) * ((d.coeff + 5) / 10 : ℕ) = d.coeff + 5 := mod_cast hcarry
    rw [hs, pow_succ, ← mul_assoc] at hle hlt
    rw [hs, Nat.succ_sub_one]
    refine (kept?_eq_some hv (by omega) (by omega) (by linarith) (by linarith) fun _ ↦ ?_).symm
    rw [pow_succ (10 : ℚ) s, ← mul_assoc]
    linarith

theorem close?_digits {c : Char} (hds : ∀ c' ∈ c :: ds, c'.isDigit = true) :
    d.close? (c :: ds) = d.round? (c.toNat - '0'.toNat) := by
  have hc := hds c List.mem_cons_self
  have hunderscore : c ≠ '_' := by
    rintro rfl
    exact absurd hc (by decide)
  have hall : ((c :: ds).all fun c' ↦ c'.isDigit || c' = '_') = true :=
    List.all_eq_true.2 fun c' h ↦ by rw [hds c' h, Bool.true_or]
  rw [close?, if_pos hall, dropped, List.dropWhile_cons_of_neg (by simpa using hunderscore),
    ite_self]
  exact congrArg d.round? (if_pos hc)

theorem bounds_of_ofDigitChars {front k : ℕ} (hds : ∀ c ∈ ds, c.isDigit = true)
    (h : v * 10 ^ (k + ds.length) = Nat.ofDigitChars 10 ds front) :
    (front : ℚ) ≤ v * 10 ^ k ∧ v * 10 ^ k < (front + 1 : ℕ) := by
  obtain ⟨hle, hlt⟩ := ofDigitChars_bounds hds front
  have hle' : (front : ℚ) * 10 ^ ds.length ≤ Nat.ofDigitChars 10 ds front := mod_cast hle
  have hlt' : (Nat.ofDigitChars 10 ds front : ℚ) < (front + 1 : ℕ) * 10 ^ ds.length := mod_cast hlt
  have hpos : (0 : ℚ) < 10 ^ ds.length := by positivity
  rw [← h, pow_add, ← mul_assoc] at hle' hlt'
  exact ⟨le_of_mul_le_mul_right hle' hpos, lt_of_mul_lt_mul_right hlt' hpos.le⟩

/-- Digits after the point are kept as far as there is room for them, and rounded there. -/
theorem read?_decimals (hds : ∀ c ∈ ds, c.isDigit = true) (hv : 0 ≤ v)
    (hpointed : d.pointed = true) (hstarted : d.started = true) (hcoeff : d.coeff < coeffBound)
    (hscale : d.scale ≤ 28)
    (hvalue : v * 10 ^ (d.scale + ds.length) = Nat.ofDigitChars 10 ds d.coeff) :
    d.read? ds = kept? v (d.scale + ds.length) := by
  induction ds generalizing d with
  | nil =>
    rw [List.length_nil, Nat.add_zero, Nat.ofDigitChars_nil] at hvalue
    rw [read?, finish?, if_pos hstarted]
    exact (kept?_eq_some hv (by simpa using hscale) hcoeff (by linarith) (by linarith)
      fun h ↦ absurd h (by simp)).symm
  | cons c ds ih =>
    have hc := hds c List.mem_cons_self
    have hds' : ∀ c ∈ ds, c.isDigit = true := fun c h ↦ hds c (List.mem_cons_of_mem _ h)
    have hlength : d.scale + (c :: ds).length = d.scale + 1 + ds.length := by
      rw [List.length_cons]
      omega
    rw [Nat.ofDigitChars_cons, hlength] at hvalue
    obtain ⟨hle, hlt⟩ := bounds_of_ofDigitChars hds' hvalue
    have hround (hmax : d.scale < 28 → coeffBound ≤ 10 * d.coeff + (c.toNat - '0'.toNat)) :
        d.close? (c :: ds) = kept? v (d.scale + (c :: ds).length) := by
      rw [close?_digits hds]
      exact round?_eq hv hcoeff (digit_lt_ten hc) hle hlt (by simpa using hscale)
        fun h ↦ hmax (by omega)
    rw [read?]
    split_ifs with hfull
    · exact hround fun h ↦ absurd hfull h.ne
    dsimp only
    split_ifs with hfits
    · rw [hlength]
      have hpush : (d.push (c.toNat - '0'.toNat)).scale = d.scale + 1 := if_pos hpointed
      have hpush' : (d.push (c.toNat - '0'.toNat)).coeff = 10 * d.coeff + (c.toNat - '0'.toNat) :=
        congrArg (· + _) (Nat.mul_comm _ _)
      rw [ih (d := d.push _) hds' hpointed rfl hfits (by omega) (by rw [hpush, hpush', hvalue]),
        hpush]
    · exact hround fun _ ↦ by omega

/-- Digits before the point that make up too large a number are refused. -/
theorem read?_overflow (hds : ∀ c ∈ ds, c.isDigit = true) (hpointed : d.pointed = false)
    (hscale : d.scale = 0) (hcoeff : d.coeff < coeffBound)
    (hlarge : coeffBound ≤ Nat.ofDigitChars 10 ds d.coeff) (rest : List Char) :
    d.read? (ds ++ rest) = none := by
  induction ds generalizing d with
  | nil =>
    rw [Nat.ofDigitChars_nil] at hlarge
    omega
  | cons c ds ih =>
    have hds' : ∀ c ∈ ds, c.isDigit = true := fun c h ↦ hds c (List.mem_cons_of_mem _ h)
    rw [Nat.ofDigitChars_cons, Nat.mul_comm] at hlarge
    rw [List.cons_append, read?, if_neg (by omega), if_pos (hds c List.mem_cons_self)]
    dsimp only
    split_ifs with hfits hpointed'
    · exact ih hds' hpointed (by simp [push, hpointed, hscale]) hfits hlarge
    · rw [hpointed] at hpointed'
      cases hpointed'
    · rfl

end Draft

/-! ## Shifting the point -/

/-- A decimal number times a power of ten, as it is read in scientific notation. -/
def shift? (d : Decimal) (power : ℤ) : Option Decimal :=
  if power < 0 then d.scaleDown? power.natAbs else d.scaleUp? power.toNat

section Shift

variable {d d' : Decimal} {power : ℤ}

theorem exists_make?_iff {coeff : ℤ} {scale : ℕ} :
    (∃ d, make? coeff scale = some d) ↔ coeff.natAbs < 2 ^ 96 ∧ scale ≤ 28 := by
  rw [make?, ← coeffBound_eq]
  split_ifs with h
  · exact iff_of_true ⟨_, rfl⟩ h
  · refine iff_of_false ?_ h
    rintro ⟨_, ⟨⟩⟩

theorem shift?_natCast (d : Decimal) (m : ℕ) : d.shift? m = d.scaleUp? m := by
  rw [shift?, if_neg (by omega), Int.toNat_natCast]

theorem shift?_neg (d : Decimal) (m : ℕ) : d.shift? (-m) = d.scaleDown? m := by
  rcases Nat.eq_zero_or_pos m with rfl | hm
  · rw [Nat.cast_zero, neg_zero, ← Nat.cast_zero, shift?_natCast, scaleUp?, if_pos (Nat.zero_le _)]
    rfl
  · rw [shift?, if_pos (by omega), Int.natAbs_neg, Int.natAbs_natCast]

theorem shift?_zero (d : Decimal) : d.shift? 0 = some d := by
  rw [← Nat.cast_zero, shift?_natCast, scaleUp?, if_pos (Nat.zero_le _)]
  exact make?_eq_some_iff.2 ⟨rfl, rfl⟩

theorem readCount?_digits {ds : List Char} (h : IsDigits ds) :
    readCount? ds = some (Nat.ofDigitChars 10 ds 0) := by
  obtain ⟨c, cs, rfl⟩ := List.exists_cons_of_ne_nil h.1
  rw [readCount?.eq_2, Number.readDigits?_eq h]
  rintro cs' heq
  cases heq
  exact absurd (h.2 '+' List.mem_cons_self) (by decide)

theorem value_of_shift? (h : d.shift? power = some d') : d'.value = d.value * 10 ^ power := by
  obtain ⟨m, rfl | rfl⟩ := power.eq_nat_or_neg
  · rw [shift?_natCast, scaleUp?] at h
    rw [zpow_natCast]
    split_ifs at h with hle hmax
    · obtain ⟨hcoeff, hscale⟩ := make?_eq_some_iff.1 h
      obtain ⟨k, hk⟩ := Nat.exists_eq_add_of_le hle
      rw [hk, Nat.add_sub_cancel_left] at hscale
      rw [value, value, hcoeff, hscale, hk, pow_add]
      field_simp
    · obtain ⟨hcoeff, hscale⟩ := make?_eq_some_iff.1 h
      obtain ⟨k, hk⟩ := Nat.exists_eq_add_of_le (Nat.le_of_not_le hle)
      rw [hk, Nat.add_sub_cancel_left] at hcoeff
      rw [value, value, hcoeff, hscale, hk, pow_add, tenPow_eq]
      push_cast
      field_simp
  · rw [shift?_neg] at h
    obtain ⟨hcoeff, hscale⟩ := make?_eq_some_iff.1 h
    rw [value, value, hcoeff, hscale, pow_add, zpow_neg, zpow_natCast]
    field_simp

/-- Which shifts lose no digit. -/
theorem exists_shift?_iff : (∃ d', d.shift? power = some d') ↔
    (d.scale : ℤ) - 28 ≤ power ∧ power ≤ 28 ∧
      d.coeff.natAbs * 10 ^ (power - d.scale).toNat < 2 ^ 96 := by
  have hcoeff := d.coeff_lt
  have hscale := d.scale_le
  rw [coeffBound_eq] at hcoeff
  have hsmall (hle : power ≤ d.scale) :
      d.coeff.natAbs * 10 ^ (power - d.scale).toNat = d.coeff.natAbs := by
    rw [Int.toNat_of_nonpos (by omega), pow_zero, mul_one]
  rw [shift?]
  split_ifs with hneg
  · rw [scaleDown?, exists_make?_iff, hsmall (by omega)]
    omega
  · rw [scaleUp?]
    split_ifs with hle hmax
    · rw [exists_make?_iff, hsmall (by omega)]
      omega
    · have hexp : (power - d.scale).toNat = power.toNat - d.scale := by omega
      rw [exists_make?_iff, Int.natAbs_mul, Int.natAbs_natCast, tenPow_eq, hexp]
      omega
    · refine iff_of_false ?_ (by omega)
      rintro ⟨_, ⟨⟩⟩

end Shift

end Decimal

namespace Lexeme.Number

open Decimal

variable (n : Number) {d : Decimal}

/-! ## The number before the exponent -/

/-- How many of the digits after the point are kept. -/
def kept : ℕ := places n.mantissa n.decimals.length

theorem kept_le : n.kept ≤ 28 := (places_le _ _).trans (min_le_left _ _)

theorem mantissa_nonneg : 0 ≤ n.mantissa := by
  rw [mantissa]
  positivity

theorem mantissa_mul : n.mantissa * 10 ^ n.decimals.length = n.coeff :=
  div_mul_cancel₀ _ (by positivity)

theorem read?_mantissa :
    Draft.empty.read? (n.whole ++ n.fraction) = kept? n.mantissa n.decimals.length := by
  have hwhole := n.isDigits_whole.2
  have hvalue := n.mantissa_mul
  rw [coeff, Nat.ofDigitChars_append] at hvalue
  rcases Nat.lt_or_ge (Nat.ofDigitChars 10 n.whole 0) coeffBound with hlt | hge
  · have hpush : Draft.empty.pushAll n.whole =
        ⟨Nat.ofDigitChars 10 n.whole 0, 0, false, true⟩ := by
      simp [Draft.pushAll, Draft.empty, List.isEmpty_eq_false_iff.2 n.isDigits_whole.1]
    rw [Draft.read?_append (d := Draft.empty) hwhole hlt rfl, hpush]
    rcases n.fraction_cases with ⟨hnil, hdecimals⟩ | ⟨heq, hdigits⟩
    · rw [hdecimals, List.length_nil, Nat.ofDigitChars_nil] at hvalue
      rw [hnil, hdecimals]
      exact (kept?_eq_some n.mantissa_nonneg (Nat.zero_le _) hlt (by linarith) (by linarith)
        fun h ↦ absurd h (by simp)).symm
    · rw [heq, Draft.read?_point, Draft.read?_decimals hdigits.2 n.mantissa_nonneg rfl rfl hlt
        (Nat.zero_le _) (by rwa [Nat.zero_add]), Nat.zero_add]
  · have hdecimals : ∀ c ∈ n.decimals, c.isDigit = true := fun _ ↦ n.isDigit_of_mem_decimals
    have hle := (Draft.bounds_of_ofDigitChars (k := 0) hdecimals (by rwa [Nat.zero_add])).1
    have hge' : (2 : ℚ) ^ 96 ≤ Nat.ofDigitChars 10 n.whole 0 := mod_cast hge
    rw [pow_zero, mul_one] at hle
    rw [Draft.read?_overflow hwhole rfl rfl (by decide) hge, kept?_eq_none (by linarith)]

/-- The sign and the exponent apart, a number is read as it is kept. -/
theorem ofPlain?_eq_some_iff : ofPlain? (n.whole ++ n.fraction) = some d ↔
    n.mantissa + 1 / 2 < 2 ^ 96 ∧ d.coeff = rounded n.mantissa n.kept ∧ d.scale = n.kept := by
  rw [ofPlain?, n.splitSign_whole_append]
  simp only [n.read?_mantissa, kept?, Bool.false_eq_true, if_false]
  split_ifs with h
  · rw [Option.bind_some, make?_eq_some_iff]
    exact (and_iff_right h).symm
  · refine iff_of_false ?_ fun hd ↦ h hd.1
    rintro ⟨⟩

theorem isExponentMark_of_mem_mantissa {c : Char} (h : c ∈ n.whole ++ n.fraction) :
    isExponentMark c = false := by
  rcases List.mem_append.1 h with hmem | hmem
  · exact isExponentMark_of_isDigit (n.isDigits_whole.2 c hmem)
  · rcases n.fraction_cases with ⟨hnil, -⟩ | ⟨heq, hdigits⟩
    · rw [hnil] at hmem
      exact absurd hmem List.not_mem_nil
    · rw [heq] at hmem
      rcases List.mem_cons.1 hmem with rfl | hmem
      · rfl
      · exact isExponentMark_of_isDigit (hdigits.2 c hmem)

/-! ## The exponent -/

theorem decimal_ofChars?_chars :
    Decimal.ofChars? n.chars = (ofPlain? (n.whole ++ n.fraction)).bind (shift? · n.power) := by
  have hmantissa : ∀ c ∈ n.whole ++ n.fraction, (!isExponentMark c) = true := fun c hc ↦ by
    rw [n.isExponentMark_of_mem_mantissa hc, Bool.not_false]
  have hchars : n.chars = (n.whole ++ n.fraction) ++ n.exponent := (List.append_assoc _ _ _).symm
  rcases n.exponent_cases with ⟨hnil, hpower⟩ | ⟨c, ds, hc, hds, h⟩
  · have hany : (n.whole ++ n.fraction).any isExponentMark = false :=
      List.any_eq_false.2 fun c hc ↦ by simp [n.isExponentMark_of_mem_mantissa hc]
    rw [hchars, hnil, List.append_nil, ofChars?, hany, if_neg Bool.false_ne_true, hpower]
    simp only [shift?_zero, Option.bind_fun_some]
  have hmark : isExponentMark c = true := isExponentMark_iff.2 hc
  obtain ⟨cs, hcs⟩ : ∃ cs, n.exponent = c :: cs := by
    rcases h with ⟨heq | heq, -⟩ | ⟨heq, -⟩
    · exact ⟨_, heq⟩
    · exact ⟨_, heq⟩
    · exact ⟨_, heq⟩
  have hany : n.chars.any isExponentMark = true := by
    rw [hchars, hcs, List.any_append, List.any_cons, hmark, Bool.true_or, Bool.or_true]
  have htake : n.chars.takeWhile (!isExponentMark ·) = n.whole ++ n.fraction := by
    rw [hchars, hcs, List.takeWhile_append_of_pos hmantissa,
      List.takeWhile_cons_of_neg (by simp [hmark]), List.append_nil]
  have hdrop : n.chars.dropWhile (!isExponentMark ·) = n.exponent := by
    rw [hchars, hcs, List.dropWhile_append_of_pos hmantissa,
      List.dropWhile_cons_of_neg (by simp [hmark])]
  have hup {cs : List Char} (heq : n.exponent = c :: cs) (hminus : cs.head? ≠ some '-')
      (hcount : readCount? cs = some (Nat.ofDigitChars 10 ds 0))
      (hpower : n.power = Nat.ofDigitChars 10 ds 0) :
      Decimal.ofChars? n.chars = (ofPlain? (n.whole ++ n.fraction)).bind (shift? · n.power) := by
    rw [ofChars?, hany, if_pos rfl, ofScientific?, htake, hdrop, heq, hpower]
    split
    · next heq' =>
      cases heq'
      exact absurd rfl hminus
    · next heq' =>
      cases heq'
      simp only [hcount, Option.bind_some, shift?_natCast]
    · next heq' => cases heq'
  rcases h with ⟨heq | heq, hpower⟩ | ⟨heq, hpower⟩
  · refine hup heq (fun hhead ↦ ?_) (readCount?_digits hds) hpower
    exact absurd (hds.2 '-' (List.mem_of_mem_head? hhead)) (by decide)
  · exact hup heq (by simp) (Number.readDigits?_eq hds) hpower
  · rw [ofChars?, hany, if_pos rfl, ofScientific?, htake, hdrop]
    simp only [heq, hpower, readCount?_digits hds, Option.bind_some, shift?_neg]

theorem rounded_lt (h : n.mantissa + 1 / 2 < 2 ^ 96) : rounded n.mantissa n.kept < 2 ^ 96 := by
  have hfits : n.mantissa * 10 ^ n.kept + 1 / 2 < 2 ^ 96 := by
    rcases Nat.eq_zero_or_pos n.kept with hzero | hpos
    · rwa [hzero, pow_zero, mul_one]
    · exact Nat.findGreatest_of_ne_zero (P := fun k ↦ n.mantissa * 10 ^ k + 1 / 2 < 2 ^ 96)
        (n := min 28 n.decimals.length) rfl hpos.ne'
  have hnonneg := mul_nonneg n.mantissa_nonneg (pow_nonneg (by norm_num : (0 : ℚ) ≤ 10) n.kept)
  rw [rounded, Nat.floor_lt (by linarith)]
  exact_mod_cast hfits

/-- Which texts denote decimal numbers: the number before the exponent has to be within the range,
and moving its point must lose no digit that has been kept. -/
theorem exists_decimal_iff : (∃ d, Decimal.ofChars? n.chars = some d) ↔
    n.mantissa + 1 / 2 < 2 ^ 96 ∧ (n.kept : ℤ) - 28 ≤ n.power ∧ n.power ≤ 28 ∧
      rounded n.mantissa n.kept * 10 ^ (n.power - n.kept).toNat < 2 ^ 96 := by
  constructor
  · rintro ⟨d, hd⟩
    rw [n.decimal_ofChars?_chars] at hd
    obtain ⟨base, hbase, hshift⟩ := Option.bind_eq_some_iff.1 hd
    obtain ⟨hrange, hcoeff, hscale⟩ := n.ofPlain?_eq_some_iff.1 hbase
    have hmoved := exists_shift?_iff.1 ⟨d, hshift⟩
    rw [hcoeff, hscale, Int.natAbs_natCast] at hmoved
    exact ⟨hrange, hmoved⟩
  · rintro ⟨hrange, hmoved⟩
    obtain ⟨base, hbase⟩ := exists_make?_iff.2
      ⟨(Int.natAbs_natCast _).trans_lt (n.rounded_lt hrange), n.kept_le⟩
    obtain ⟨hcoeff, hscale⟩ := make?_eq_some_iff.1 hbase
    rw [n.decimal_ofChars?_chars, n.ofPlain?_eq_some_iff.2 ⟨hrange, hcoeff, hscale⟩,
      Option.bind_some, exists_shift?_iff, hcoeff, hscale, Int.natAbs_natCast]
    exact hmoved

/-- The number that is denoted is the one before the exponent, rounded, times the power of ten. -/
theorem value_of_decimal (h : Decimal.ofChars? n.chars = some d) :
    d.value = rounded n.mantissa n.kept / 10 ^ n.kept * 10 ^ n.power := by
  rw [n.decimal_ofChars?_chars] at h
  obtain ⟨base, hbase, hshift⟩ := Option.bind_eq_some_iff.1 h
  obtain ⟨-, hcoeff, hscale⟩ := n.ofPlain?_eq_some_iff.1 hbase
  rw [value_of_shift? hshift, Decimal.value, hcoeff, hscale, Int.cast_natCast]

end Lexeme.Number

end TemplateExpr
