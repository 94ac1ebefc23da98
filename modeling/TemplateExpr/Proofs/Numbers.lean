import TemplateExpr.Proofs.LongestMatch

/-!
# The numbers that texts stand for

A text of the pattern of numbers has three parts, the digits before the point, the fraction and the
exponent, and they give its exact value (`Lexeme.Number.value`). Nothing is rounded there: the value
is a rational number, whatever the length of the text.

## Value and mantissa

All that is decided about a number when it is read is decided by comparing its value, and the number
before the exponent, with the bounds of the two kinds of literals. The number before the exponent
has a name of its own (`Lexeme.Number.mantissa`), because a reader that goes by it may round before
the exponent is looked at.

## Readers

What is shown here is that the readers of both kinds see the parts of the pattern:
`Lexeme.Number.ofChars?_chars` for the exact numeral, and `Lexeme.Number.splitNumber_chars` for the
lexeme. A part ends where the next one begins, as the first character of each shows: a point, the
letter `e` or nothing, and no digit.
-/

namespace TemplateExpr

open Text

namespace Lexeme

instance : DecidablePred IsDigits := fun cs ↦
  decidable_of_iff (cs ≠ [] ∧ cs.all Char.isDigit = true) (and_congr_right fun _ ↦ List.all_eq_true)

/-- A text of the pattern of numbers, in its parts. -/
structure Number where
  /-- The digits before the point. -/
  whole : List Char
  /-- A point and the digits after it, or nothing. -/
  fraction : List Char
  /-- The letter `e`, a sign or none, and digits, or nothing. -/
  exponent : List Char
  isDigits_whole : IsDigits whole
  isFraction_fraction : IsFraction fraction
  isExponent_exponent : IsExponent exponent

/-- The number that digits behind the letter `e` make up, with the sign before them. -/
def signedCount (exponent : List Char) : ℤ :=
  let count : ℕ := Nat.ofDigitChars 10 (exponent.filter Char.isDigit) 0
  if '-' ∈ exponent then -count else count

namespace Number

variable (n : Number)

def chars : List Char := n.whole ++ (n.fraction ++ n.exponent)

/-- The digits after the point. -/
def decimals : List Char := n.fraction.tail

/-- All the digits before the exponent as a whole number. -/
def coeff : ℕ := Nat.ofDigitChars 10 (n.whole ++ n.decimals) 0

/-- The number that stands before the exponent. -/
def mantissa : ℚ := n.coeff / 10 ^ n.decimals.length

def power : ℤ := signedCount n.exponent

/-- The number that the text stands for. -/
def value : ℚ := n.mantissa * 10 ^ n.power

theorem isNumber_chars : IsNumber n.chars :=
  ⟨_, _, _, n.isDigits_whole, n.isFraction_fraction, n.isExponent_exponent, rfl⟩

/-! ## Parts -/

/-- There is no fraction, or it is a point and the digits after it. -/
theorem fraction_cases : n.fraction = [] ∧ n.decimals = [] ∨
    n.fraction = '.' :: n.decimals ∧ IsDigits n.decimals := by
  rcases n.isFraction_fraction with hnil | ⟨ds, hds, heq⟩
  · exact .inl ⟨hnil, by rw [decimals, hnil, List.tail_nil]⟩
  · have hdecimals : n.decimals = ds := by rw [decimals, heq, List.tail_cons]
    exact .inr ⟨hdecimals ▸ heq, hdecimals ▸ hds⟩

theorem isDigit_of_mem_decimals {c : Char} (h : c ∈ n.decimals) : c.isDigit = true := by
  rcases n.fraction_cases with ⟨-, hnil⟩ | ⟨-, hdigits⟩
  · rw [hnil] at h
    exact absurd h List.not_mem_nil
  · exact hdigits.2 c h

theorem whole_append_eq_cons (rest : List Char) :
    ∃ c cs, n.whole ++ rest = c :: cs ∧ c.isDigit = true := by
  obtain ⟨c, cs, hcs⟩ := List.exists_cons_of_ne_nil n.isDigits_whole.1
  exact ⟨c, cs ++ rest, by rw [hcs, List.cons_append],
    n.isDigits_whole.2 c (by rw [hcs]; exact List.mem_cons_self)⟩

/-! ## First characters -/

theorem isDigit_head_chars : ∀ c ∈ n.chars.head?, c.isDigit = true := by
  obtain ⟨c, cs, hcs, hdigit⟩ := n.whole_append_eq_cons (n.fraction ++ n.exponent)
  rw [chars, hcs]
  rintro _ ⟨⟩
  exact hdigit

theorem isDigit_head_exponent : ∀ c ∈ n.exponent.head?, c.isDigit = false := by
  have hexponent := n.isExponent_exponent
  cases hcs : n.exponent with
  | nil => simp
  | cons c cs =>
    rintro _ ⟨⟩
    rw [hcs] at hexponent
    exact hexponent.isDigit_head

theorem isDigit_head_tail : ∀ c ∈ (n.fraction ++ n.exponent).head?, c.isDigit = false := by
  rcases n.fraction_cases with ⟨hnil, -⟩ | ⟨heq, -⟩
  · rw [hnil]
    exact n.isDigit_head_exponent
  · rw [heq]
    rintro _ ⟨⟩
    rfl

/-! ## Exponents -/

theorem exponent_cases : n.exponent = [] ∧ n.power = 0 ∨ ∃ c ds, (c = 'e' ∨ c = 'E') ∧
    IsDigits ds ∧
      ((n.exponent = c :: ds ∨ n.exponent = c :: '+' :: ds) ∧ n.power = Nat.ofDigitChars 10 ds 0 ∨
        n.exponent = c :: '-' :: ds ∧ n.power = -(Nat.ofDigitChars 10 ds 0 : ℤ)) := by
  rcases n.isExponent_exponent with hnil | ⟨c, sign, ds, hc, hsign, hds, heq⟩
  · exact .inl ⟨hnil, by rw [power, hnil]; rfl⟩
  have hfilter : ds.filter Char.isDigit = ds := List.filter_eq_self.2 hds.2
  have hminus : '-' ∉ ds := fun hmem ↦ absurd (hds.2 _ hmem) (by decide)
  refine .inr ⟨c, ds, hc, hds, ?_⟩
  simp only [List.mem_cons, List.not_mem_nil, or_false] at hsign
  rw [power, signedCount, heq]
  rcases hc with rfl | rfl <;> rcases hsign with rfl | rfl | rfl <;>
    simp [hfilter, hminus]

/-! ## Readers -/

theorem splitSign_whole_append (rest : List Char) :
    Numeral.splitSign (n.whole ++ rest) = (false, n.whole ++ rest) := by
  obtain ⟨c, cs, hcs, hdigit⟩ := n.whole_append_eq_cons rest
  rw [hcs]
  exact Numeral.splitSign_of_isDigit hdigit

theorem splitFraction_tail : Numeral.splitFraction (n.fraction ++ n.exponent) =
    (n.decimals, n.exponent) := by
  have hexponent := n.isDigit_head_exponent
  rcases n.fraction_cases with ⟨hnil, hdecimals⟩ | ⟨heq, hdigits⟩
  · rw [hnil, hdecimals, List.nil_append]
    have hpoint := n.isExponent_exponent
    cases hcs : n.exponent with
    | nil => rfl
    | cons c cs =>
      rw [hcs] at hpoint
      rw [Numeral.splitFraction.eq_2 _ fun _ h ↦ hpoint.ne_point (List.cons.inj h).1]
  · rw [heq, List.cons_append, Numeral.splitFraction, takeWhile_append_of_head? hexponent,
      dropWhile_append_of_head? hexponent, List.takeWhile_eq_self_iff.2 hdigits.2,
      List.dropWhile_eq_nil_iff.2 hdigits.2, List.nil_append]

theorem readDigits?_eq {ds : List Char} (h : IsDigits ds) :
    readDigits? ds = some (Nat.ofDigitChars 10 ds 0) :=
  if_pos ⟨h.1, List.all_eq_true.2 h.2⟩

theorem readExponent?_exponent : Numeral.readExponent? n.exponent = some n.power := by
  rcases n.exponent_cases with ⟨hnil, hpower⟩ | ⟨c, ds, hc, hds, h⟩
  · rw [hnil, hpower]
    rfl
  have hsign : Numeral.splitSign ds = (false, ds) := by
    obtain ⟨d, cs, rfl⟩ := List.exists_cons_of_ne_nil hds.1
    exact Numeral.splitSign_of_isDigit (hds.2 d List.mem_cons_self)
  rcases h with ⟨heq | heq, hpower⟩ | ⟨heq, hpower⟩
  · rw [heq, hpower, Numeral.readExponent?, if_pos hc, hsign]
    simp [readDigits?_eq hds]
  · rw [heq, hpower, Numeral.readExponent?, if_pos hc, Numeral.splitSign]
    simp [readDigits?_eq hds]
  · rw [heq, hpower, Numeral.readExponent?, if_pos hc, Numeral.splitSign]
    simp [readDigits?_eq hds]

/-! ## The text as a whole -/

/-- As a numeral, the text stands for its value. -/
theorem ofChars?_chars :
    Numeral.ofChars? n.chars = some ⟨false, n.coeff, n.power - n.decimals.length⟩ := by
  have htail := n.isDigit_head_tail
  have hdigits : IsDigits (n.whole ++ n.decimals) :=
    ⟨by simp [n.isDigits_whole.1], List.forall_mem_append.2
      ⟨n.isDigits_whole.2, fun _ ↦ n.isDigit_of_mem_decimals⟩⟩
  rw [Numeral.ofChars?, chars, n.splitSign_whole_append]
  dsimp only
  rw [takeWhile_append_of_head? htail, dropWhile_append_of_head? htail,
    List.takeWhile_eq_self_iff.2 n.isDigits_whole.2, List.dropWhile_eq_nil_iff.2 n.isDigits_whole.2,
    List.nil_append, n.splitFraction_tail]
  dsimp only
  rw [readDigits?_eq hdigits, n.readExponent?_exponent]
  rfl

theorem value_eq : n.value = n.coeff * 10 ^ (n.power - n.decimals.length) := by
  rw [value, mantissa, zpow_sub₀ (by norm_num), zpow_natCast]
  ring

/-- The text is split off as a number as a whole. -/
theorem splitNumber_chars : splitNumber n.chars = (n.chars, []) :=
  splitNumber_of_isNumber n.isNumber_chars

end Number

end Lexeme

end TemplateExpr
