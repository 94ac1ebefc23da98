import TemplateExpr.Proofs.Decimals
import TemplateExpr.Proofs.Nearest
import TemplateExpr.Proofs.Serialization

/-!
# Whole numbers in JSON

A decimal number becomes an integer of JSON exactly if its value is whole and fits 64 bits with a
sign, and then it becomes that very integer. Any other number becomes a finite binary one, whose
text is that of no integer (`Decimal.toJson_whole_or_finite`). What becomes of a number is up to its
value, not to the zeros with which it is written.

## Whole values

Taking zeros off the end of a number keeps its value, so the scale that is left over is zero exactly
for whole numbers (`Decimal.toJson_eq_int_iff`).

## Finite values

The steps that lead to a binary number near a decimal one stay far below the end of the format: each
of them multiplies a power of two that bounds its operands by two or four at most. The bounds are
coarse on purpose. A decimal number is less than `2 ^ 96`, the format ends at `2 ^ 1024`, and there
are only a few steps, so no step has to be known to the bit.
-/

namespace TemplateExpr

/-! ## Values -/

theorem fitsWord_iff {n : ℤ} : fitsWord n = true ↔ -2 ^ 63 ≤ n ∧ n < 2 ^ 63 := by
  rw [fitsWord, Bool.and_eq_true, decide_eq_true_eq, decide_eq_true_eq]
  omega

namespace Decimal

variable {d d' : Decimal} {n : ℤ}

theorem stripZeros_mul (coeff : ℤ) (scale : ℕ) :
    (stripZeros coeff scale).1 * tenPow scale = coeff * tenPow (stripZeros coeff scale).2 := by
  induction scale generalizing coeff with
  | zero => rfl
  | succ scale ih =>
    rw [stripZeros]
    split
    · next hzero =>
      have hcoeff := Int.tdiv_mul_cancel (Int.dvd_of_tmod_eq_zero hzero)
      rw [tenPow_succ, Int.natCast_mul, ← Int.mul_assoc, ih, Int.mul_right_comm]
      exact congrArg (· * _) hcoeff
    · rfl

theorem beq_normalize (d : Decimal) : (d.normalize == d) = true :=
  beq_iff.2 (stripZeros_mul d.coeff d.scale)

theorem tenPow_scale_ne_zero (d : Decimal) : (10 : ℚ) ^ d.scale ≠ 0 := by positivity

theorem value_eq_iff_beq : d.value = d'.value ↔ (d == d') = true := by
  rw [value, value, div_eq_div_iff d.tenPow_scale_ne_zero d'.tenPow_scale_ne_zero, beq_iff,
    tenPow_eq, tenPow_eq]
  exact_mod_cast Iff.rfl

theorem value_eq_intCast_iff : d.value = n ↔ d.IsWhole n := by
  rw [value, div_eq_iff d.tenPow_scale_ne_zero, IsWhole, tenPow_eq]
  exact_mod_cast Iff.rfl

theorem value_normalize (d : Decimal) : d.normalize.value = d.value :=
  value_eq_iff_beq.2 d.beq_normalize

/-- A number becomes an integer exactly if that is its value and fits. -/
theorem toJson_eq_int_iff : d.toJson = .int n ↔ d.value = n ∧ fitsWord n = true := by
  constructor
  · intro h
    rw [toJson] at h
    split at h
    · next hwhole =>
      obtain rfl := Json.int.inj h
      refine ⟨?_, hwhole.2⟩
      rw [← d.value_normalize, value, hwhole.1, pow_zero, div_one]
    · cases h
  · rintro ⟨hvalue, hfits⟩
    exact (value_eq_intCast_iff.1 hvalue).toJson hfits

end Decimal

/-! ## The steps of the conversion -/

namespace Binary64

variable {num den a b m n : ℕ}

theorem roundUnits_le_mul_one (hden : 0 < den) (h : num ≤ 2 ^ n * one * den) :
    roundUnits num den ≤ 2 ^ (n + 1) * one := by
  obtain ⟨a, ha⟩ : ∃ a, one = 2 ^ (a + 53) := ⟨1021, one_shiftLeft (1021 + 53)⟩
  have hpow : 2 ^ (n + 1) * one = 2 ^ (n + 1 + a + 53) := by
    rw [ha, ← Nat.pow_add, Nat.add_assoc _ a]
  rw [hpow]
  apply roundUnits_le_of_lt hden
  calc num ≤ 2 ^ n * one * den := h
    _ < 2 ^ (n + 1) * one * den := Nat.mul_lt_mul_of_pos_right (Nat.mul_lt_mul_of_pos_right
      (Nat.pow_lt_pow_right (by decide) n.lt_succ_self) one_pos) hden
    _ = 2 ^ (n + 1 + a + 53) * den := by rw [hpow]

theorem two_pow_mul_one_le (h : m ≤ n) : 2 ^ m * one ≤ 2 ^ n * one :=
  Nat.mul_le_mul_right one (Nat.pow_le_pow_right (by decide) h)

theorem two_pow_succ_mul_one (n : ℕ) : 2 ^ (n + 1) * one = 2 * (2 ^ n * one) := by
  rw [Nat.pow_succ', Nat.mul_assoc]

theorem unitsOfNat_le (h : a ≤ 2 ^ n) : unitsOfNat a ≤ 2 ^ (n + 1) * one := by
  apply roundUnits_le_mul_one Nat.one_pos
  rw [Nat.mul_one]
  exact Nat.mul_le_mul_right one h

theorem addUnits_le (ha : a ≤ 2 ^ n * one) (hb : b ≤ 2 ^ n * one) :
    addUnits a b ≤ 2 ^ (n + 2) * one := by
  apply roundUnits_le_mul_one Nat.one_pos
  rw [Nat.mul_one, two_pow_succ_mul_one]
  omega

theorem mulUnits_le (ha : a ≤ 2 ^ m * one) (hb : b ≤ 2 ^ n * one) :
    mulUnits a b ≤ 2 ^ (m + n + 1) * one := by
  apply roundUnits_le_mul_one one_pos
  calc a * b ≤ 2 ^ m * one * (2 ^ n * one) := Nat.mul_le_mul ha hb
    _ = 2 ^ (m + n) * one * one := by ring

theorem divUnits_le (ha : a ≤ 2 ^ n * one) (hb : one ≤ b) : divUnits a b ≤ 2 ^ (n + 1) * one :=
  roundUnits_le_mul_one (one_pos.trans_le hb) (Nat.mul_le_mul ha hb)

theorem wholeUnits_le (h : a ≤ 2 ^ n * one) : wholeUnits a ≤ 2 ^ (n + 1) * one := by
  have hone : one ≤ 2 ^ n * one := Nat.le_mul_of_pos_left _ (Nat.two_pow_pos n)
  have htwice : 2 * wholeUnits a ≤ 2 * a + one :=
    calc 2 * wholeUnits a = (2 * a + one) / (2 * one) * (2 * one) := by rw [wholeUnits]; ring
      _ ≤ 2 * a + one := Nat.div_mul_le_self _ _
  rw [two_pow_succ_mul_one]
  omega

/-- The powers of ten that the places of a decimal number ask for. -/
theorem powTen_bounds : ∀ scale ≤ 28, one ≤ unitsOfNat (tenPow scale) ∧
    one ≤ powTenUnits scale ∧ powTenUnits scale ≤ 2 ^ 94 * one := by
  decide +kernel

end Binary64

namespace Decimal

open Binary64

/-! ## Numbers near a decimal one -/

/-- The number of units near a decimal number is far from the end of the format. -/
theorem nearbyUnits_le {coeff scale : ℕ} (hcoeff : coeff < 2 ^ 96) (hscale : scale ≤ 28) :
    nearbyUnits coeff scale ≤ 2 ^ 197 * one := by
  obtain ⟨hten, hpower, hpower'⟩ := powTen_bounds scale hscale
  have hwhole : unitsOfNat (coeff / tenPow scale) ≤ 2 ^ 97 * one :=
    unitsOfNat_le ((Nat.div_le_self _ _).trans hcoeff.le)
  have hrest : unitsOfNat (coeff % tenPow scale) ≤ 2 ^ 97 * one :=
    unitsOfNat_le ((Nat.mod_le _ _).trans hcoeff.le)
  have hfraction : divUnits _ _ ≤ 2 ^ 98 * one := divUnits_le hrest hten
  rw [nearbyUnits]
  dsimp only
  split
  · exact hwhole.trans (two_pow_mul_one_le (by decide))
  · have hsum : addUnits _ _ ≤ 2 ^ 100 * one :=
      addUnits_le (hwhole.trans (two_pow_mul_one_le (by decide))) hfraction
    have hproduct := mulUnits_le hsum hpower'
    exact divUnits_le (wholeUnits_le hproduct) hpower

/-- The binary number near a decimal one is finite. -/
theorem isFinite_nearby (d : Decimal) : d.nearby.isFinite = true := by
  have hcoeff := d.coeff_lt
  rw [coeffBound_eq] at hcoeff
  have hunits := nearbyUnits_le hcoeff d.scale_le
  rw [nearby, isFinite_ofRatio]
  have hround : roundUnits (nearbyUnits d.coeff.natAbs d.scale) 1 ≤ 2 ^ 198 * one :=
    roundUnits_le_mul_one Nat.one_pos (by rwa [Nat.mul_one])
  exact hround.trans_lt (by decide +kernel)

end Decimal

/-! ## Texts -/

theorem Text.point_mem_positional (coeff : ℕ) {scale : ℕ} (h : 0 < scale) :
    '.' ∈ positional coeff scale := by
  obtain ⟨scale, rfl⟩ := Nat.exists_eq_succ_of_ne_zero h.ne'
  rw [positional]
  exact List.mem_append_right _ List.mem_cons_self

namespace Binary64

theorem exists_mem_jsonDigits (coeff : ℕ) (exponent : ℤ) :
    ∃ c ∈ jsonDigits coeff exponent, c = '.' ∨ c = 'e' := by
  rw [jsonDigits]
  split_ifs with hplain hwhole
  · exact ⟨'.', List.mem_append_right _ List.mem_cons_self, .inl rfl⟩
  · rw [plainDigits, if_neg hwhole]
    exact ⟨'.', Text.point_mem_positional _ (by omega), .inl rfl⟩
  · rw [exponentDigits]
    exact ⟨'e', List.mem_append_right _ List.mem_cons_self, .inr rfl⟩

theorem exists_mem_jsonChars {x : Binary64} (h : x.isFinite = true) :
    ∃ c ∈ x.jsonChars, c = '.' ∨ c = 'e' := by
  cases x with
  | finite negative units _ =>
    have hsigned {ds : List Char} (hds : ∃ c ∈ ds, c = '.' ∨ c = 'e') :
        ∃ c ∈ signed negative ds, c = '.' ∨ c = 'e' := by
      obtain ⟨c, hc, hpoint⟩ := hds
      refine ⟨c, ?_, hpoint⟩
      cases negative with
      | true => exact List.mem_cons_of_mem _ hc
      | false => exact hc
    rw [jsonChars]
    apply hsigned
    split
    · exact ⟨'.', by decide, .inl rfl⟩
    · exact exists_mem_jsonDigits _ _
  | infinite | nan => cases h

end Binary64

namespace Json

theorem mem_intChars {n : ℤ} {c : Char} (h : c ∈ intChars n) : c = '-' ∨ c.isDigit = true := by
  rw [intChars, List.mem_append] at h
  rcases h with h | h
  · split at h
    · exact .inl (List.mem_singleton.1 h)
    · cases h
  · exact .inr (Text.isDigit_of_mem_digits h)

theorem compact_float_ne_int {x : Binary64} (h : x.isFinite = true) (n : ℤ) :
    (float x).compact ≠ (int n).compact := by
  intro heq
  have hchars : x.jsonChars ++ [] = intChars n ++ [] := String.ofList_injective heq
  obtain ⟨c, hc, hpoint⟩ := Binary64.exists_mem_jsonChars h
  rw [List.append_nil, List.append_nil] at hchars
  rw [hchars] at hc
  rcases mem_intChars hc with rfl | hdigit
  · rcases hpoint with h | h <;> cases h
  · rcases hpoint with rfl | rfl <;> cases hdigit

end Json

/-! ## The JSON form of a number -/

namespace Decimal

/-- A number becomes an integer of JSON exactly if that integer is its value and fits 64 bits with a
sign; otherwise it becomes a finite number whose text is that of no integer. Numbers of one value
become the same. -/
theorem toJson_whole_or_finite (d : Decimal) :
    (∀ n : ℤ, (Literal.number d).toJson = .int n ↔ d.value = n ∧ -2 ^ 63 ≤ n ∧ n < 2 ^ 63) ∧
      ((¬ ∃ n : ℤ, (Literal.number d).toJson = .int n) →
        ∃ x : Binary64, (Literal.number d).toJson = .float x ∧ x.isFinite = true ∧
          ∀ n : ℤ, (Json.float x).compact ≠ (Json.int n).compact) ∧
      ∀ d' : Decimal, d'.value = d.value →
        (Literal.number d').toJson = (Literal.number d).toJson := by
  have hjson (d : Decimal) : (Literal.number d).toJson = d.toJson := rfl
  refine ⟨fun n ↦ ?_, fun hint ↦ ?_, fun d' hvalue ↦ ?_⟩
  · rw [hjson, toJson_eq_int_iff, fitsWord_iff]
  · have hfloat : d.toJson = .float d.normalize.nearby := by
      rw [toJson]
      refine if_neg fun hwhole ↦ hint ⟨d.normalize.coeff, ?_⟩
      rw [hjson, toJson]
      exact if_pos hwhole
    have hfinite := d.normalize.isFinite_nearby
    exact ⟨_, hfloat, hfinite, Json.compact_float_ne_int hfinite⟩
  · exact toJson_eq_of_beq (value_eq_iff_beq.1 hvalue)

theorem toJson_whole_or_finite_at_ends :
    let least : Decimal := ⟨-92233720368547758080, 1, by decide, by decide⟩
    let least' : Decimal := ⟨-9223372036854775808, 0, by decide, by decide⟩
    let beyond : Decimal := ⟨9223372036854775808, 0, by decide, by decide⟩
    (Literal.number least).toJson = .int (-2 ^ 63) ∧ least'.value = least.value ∧
      (Literal.number least').toJson = (Literal.number least).toJson ∧
      (¬ ∃ n : ℤ, (Literal.number beyond).toJson = .int n) ∧
      ∃ x : Binary64, (Literal.number beyond).toJson = .float x ∧ x.isFinite = true ∧
        ∀ n : ℤ, (Json.float x).compact ≠ (Json.int n).compact := by
  intro least least' beyond
  have hleast : least.value = (-2 ^ 63 : ℤ) := by
    rw [value]
    norm_num
  have hsame : least'.value = least.value := value_eq_iff_beq.2 rfl
  have hbeyond : beyond.value = (2 ^ 63 : ℤ) := by
    rw [value]
    norm_num
  have hnot : ¬ ∃ n : ℤ, (Literal.number beyond).toJson = .int n := by
    rintro ⟨n, hn⟩
    obtain ⟨hvalue, -, hlt⟩ := ((toJson_whole_or_finite beyond).1 n).1 hn
    rw [hbeyond, Int.cast_inj] at hvalue
    exact absurd hlt (hvalue ▸ lt_irrefl _)
  exact ⟨((toJson_whole_or_finite least).1 _).2 ⟨hleast, by decide, by decide⟩, hsame,
    (toJson_whole_or_finite least).2.2 least' hsame, hnot, (toJson_whole_or_finite beyond).2.1 hnot⟩

end Decimal

end TemplateExpr
