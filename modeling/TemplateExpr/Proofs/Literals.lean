import TemplateExpr.Proofs.Lexing

/-!
# Literals read back

The printed form of a literal is a lexeme, unless it has a sign, and what it stands for is the
literal again: a decimal number, with its scale (`Decimal.ofChars?_chars`), and a string whose
characters are all printed as they are or by an escape that reading knows
(`Lexeme.cut_quotedChars`).

## Numbers within their bounds

The digits of a number are read one at a time, and each time the number so far has to fit into its
bound. It does because it is the front of a number that fits. The same goes for the scale, which
counts the digits after the point: no draft has more of them than the number that is read.

## Strings

Not every escape of printing is known to reading: the one for the null character and those by a code
point are refused. So a string with such a character has no printed form that can be read, and what
is shown of strings is for those whose characters are all shown in another way (`Text.isShown`).
-/

namespace TemplateExpr

/-! ## Digits -/

namespace Text

theorem isDigit_of_mem_digits {n : Nat} {c : Char} (h : c ∈ digits n) : c.isDigit = true :=
  Nat.isDigit_of_mem_toDigits (by decide) (by decide) h

theorem isDigit_of_mem_paddedDigits {width n : Nat} {c : Char} (h : c ∈ paddedDigits width n) :
    c.isDigit = true := by
  induction width generalizing n with
  | zero => exact absurd h List.not_mem_nil
  | succ width ih =>
    rw [paddedDigits, List.mem_append, List.mem_singleton] at h
    rcases h with h | rfl
    · exact ih h
    · refine Nat.isDigit_of_mem_toDigits (b := 10) (n := n % 10) (by decide) (by decide) ?_
      rw [Nat.toDigits_of_lt_base (Nat.mod_lt _ (by decide))]
      exact List.mem_singleton_self _

/-! ## Digits that fill up a width -/

@[simp] theorem length_paddedDigits (width n : Nat) : (paddedDigits width n).length = width := by
  induction width generalizing n with
  | zero => rfl
  | succ width ih => rw [paddedDigits, List.length_append, ih, List.length_singleton]

/-- Padded digits after a number are its multiple by a power of ten and the number they show. -/
theorem ofDigitChars_paddedDigits (width n front : Nat) :
    Nat.ofDigitChars 10 (paddedDigits width n) front =
      front * tenPow width + n % tenPow width := by
  induction width generalizing n with
  | zero => simp [paddedDigits, Nat.mod_one]
  | succ width ih =>
    have hmod : n % (10 * tenPow width) = n % 10 + 10 * (n / 10 % tenPow width) :=
      Nat.mod_mul
    rw [paddedDigits, Nat.ofDigitChars_append, ih,
      Nat.ofDigitChars_cons_digitChar_of_lt_ten (Nat.mod_lt _ (by decide)), Nat.ofDigitChars_nil,
      tenPow_succ, Nat.mul_comm (tenPow width) 10, hmod, Nat.mul_add, Nat.mul_left_comm]
    omega

theorem le_ofDigitChars (cs : List Char) (front : Nat) :
    front ≤ Nat.ofDigitChars 10 cs front := by
  induction cs generalizing front with
  | nil => exact Nat.le_of_eq Nat.ofDigitChars_nil.symm
  | cons c cs ih =>
    rw [Nat.ofDigitChars_cons]
    exact Nat.le_trans (by omega) (ih _)

theorem mem_positional {coeff scale : Nat} {c : Char} (h : c ∈ positional coeff scale) :
    c.isDigit = true ∨ c = '.' := by
  cases scale with
  | zero => exact .inl (isDigit_of_mem_digits h)
  | succ scale =>
    rw [positional, List.mem_append, List.mem_cons] at h
    rcases h with h | rfl | h
    · exact .inl (isDigit_of_mem_digits h)
    · exact .inr rfl
    · exact .inl (isDigit_of_mem_paddedDigits h)

/-! ## Positional notation -/

theorem positional_eq_cons (coeff scale : Nat) :
    ∃ c cs, positional coeff scale = c :: cs ∧ c.isDigit = true := by
  obtain ⟨c, cs, hcs⟩ := List.exists_cons_of_ne_nil
    (Nat.toDigits_ne_nil (n := coeff / tenPow scale) (b := 10))
  have hdigit : c.isDigit = true := isDigit_of_mem_digits (hcs ▸ List.mem_cons_self)
  cases scale with
  | zero => exact ⟨c, cs, by rw [positional, digits, ← hcs, tenPow_zero, Nat.div_one], hdigit⟩
  | succ scale => exact ⟨c, _, by rw [positional, digits, hcs, List.cons_append], hdigit⟩

theorem Numeral.splitSign_of_isDigit {cs : List Char} (h : cs.head?.any Char.isDigit = true) :
    splitSign cs = (false, cs) := by
  cases cs with
  | nil => rfl
  | cons c cs =>
    have hc : c.isDigit = true := h
    rw [splitSign.eq_3]
    · rintro cs' heq
      cases heq
      exact absurd hc (by decide)
    · rintro cs' heq
      cases heq
      exact absurd hc (by decide)

end Text

open Text

/-! ## Numbers -/

namespace Decimal

namespace Draft

/-- The draft after some more digits. -/
def pushAll (d : Draft) (cs : List Char) : Draft :=
  ⟨Nat.ofDigitChars 10 cs d.coeff, if d.pointed then d.scale + cs.length else d.scale, d.pointed,
    d.started || !cs.isEmpty⟩

/-- Digits are read one by one as long as there is room for them. -/
theorem read?_append {d : Draft} {cs : List Char} (hcs : ∀ c ∈ cs, c.isDigit = true)
    (hcoeff : Nat.ofDigitChars 10 cs d.coeff < coeffBound)
    (hscale : if d.pointed then d.scale + cs.length ≤ 28 else d.scale = 0) (rest : List Char) :
    d.read? (cs ++ rest) = (d.pushAll cs).read? rest := by
  induction cs generalizing d with
  | nil => simp [pushAll]
  | cons c cs ih =>
    have hdigit := hcs c List.mem_cons_self
    -- reading stops at the 28th decimal, and this digit is at most that one
    have hroom : d.scale ≠ 28 := by
      split at hscale
      · rw [List.length_cons] at hscale
        omega
      · omega
    rw [Nat.ofDigitChars_cons, Nat.mul_comm] at hcoeff
    have hfits := Nat.lt_of_le_of_lt (le_ofDigitChars cs _) hcoeff
    rw [List.cons_append, read?, if_neg hroom, if_pos hdigit]
    dsimp only
    rw [if_pos hfits, ih (fun c hc ↦ hcs c (List.mem_cons_of_mem _ hc)) hcoeff]
    · simp only [pushAll, push, Nat.ofDigitChars_cons, Nat.mul_comm 10]
      congr 2
      · split
        · rw [List.length_cons, Nat.add_right_comm, Nat.add_assoc]
        · rfl
      · simp
    · simp only [push]
      split
      · next hpointed =>
        rw [if_pos hpointed, List.length_cons] at hscale
        omega
      · next hpointed => rwa [if_neg hpointed] at hscale

theorem read?_digits {n : Nat} (hn : n < coeffBound) (rest : List Char) :
    empty.read? (digits n ++ rest) = (⟨n, 0, false, true⟩ : Draft).read? rest := by
  have hvalue : Nat.ofDigitChars 10 (digits n) 0 = n := Nat.ofDigitChars_ten_toDigits
  have hne : (digits n).isEmpty = false := List.isEmpty_eq_false_iff.2 Nat.toDigits_ne_nil
  have hpush : empty.pushAll (digits n) = ⟨n, 0, false, true⟩ := by
    simp [pushAll, empty, hvalue, hne]
  have hread := read?_append (d := empty) (fun _ ↦ isDigit_of_mem_digits) (hvalue.symm ▸ hn)
    rfl rest
  rwa [hpush] at hread

theorem read?_point (n : Nat) (rest : List Char) :
    (⟨n, 0, false, true⟩ : Draft).read? ('.' :: rest) =
      (⟨n, 0, true, true⟩ : Draft).read? rest := by
  rw [read?.eq_def]
  rfl

/-- The digits after the point make up the rest of a number. -/
theorem read?_paddedDigits {coeff scale : Nat} (hcoeff : coeff < coeffBound) (hscale : scale ≤ 28) :
    (⟨coeff / tenPow scale, 0, true, true⟩ : Draft).read? (paddedDigits scale coeff) =
      some (coeff, scale) := by
  have hvalue : Nat.ofDigitChars 10 (paddedDigits scale coeff) (coeff / tenPow scale) = coeff := by
    rw [ofDigitChars_paddedDigits, Nat.div_add_mod']
  have hread := read?_append (d := ⟨coeff / tenPow scale, 0, true, true⟩)
    (fun _ ↦ isDigit_of_mem_paddedDigits) (hvalue.symm ▸ hcoeff)
    (by simpa using hscale) []
  rw [List.append_nil] at hread
  rw [hread]
  simp [pushAll, read?, finish?, hvalue]

theorem read?_positional {coeff scale : Nat} (hcoeff : coeff < coeffBound) (hscale : scale ≤ 28) :
    empty.read? (positional coeff scale) = some (coeff, scale) := by
  cases scale with
  | zero =>
    rw [positional, ← List.append_nil (digits coeff), read?_digits hcoeff]
    rfl
  | succ scale =>
    have hwhole := Nat.lt_of_le_of_lt (Nat.div_le_self coeff (tenPow (scale + 1))) hcoeff
    rw [positional, read?_digits hwhole, read?_point, read?_paddedDigits hcoeff hscale]

end Draft

/-! ## Decimal numbers -/

theorem make?_eq_some_iff {coeff : Int} {scale : Nat} {d : Decimal} :
    make? coeff scale = some d ↔ d.coeff = coeff ∧ d.scale = scale := by
  obtain ⟨c, s, hc, hs⟩ := d
  unfold make?
  split
  · simp [eq_comm]
  · next h =>
    refine iff_of_false nofun ?_
    rintro ⟨rfl, rfl⟩
    exact h ⟨hc, hs⟩

theorem chars_of_nonneg {d : Decimal} (hd : 0 ≤ d.coeff) :
    d.chars = positional d.coeff.natAbs d.scale := by
  rw [chars, if_neg (by omega), List.nil_append]

theorem splitSign_positional (coeff scale : Nat) :
    Numeral.splitSign (positional coeff scale) = (false, positional coeff scale) := by
  obtain ⟨c, cs, hcs, hdigit⟩ := positional_eq_cons coeff scale
  exact Numeral.splitSign_of_isDigit (by rw [hcs]; exact hdigit)

theorem isExponentMark_iff {c : Char} : isExponentMark c = true ↔ c = 'e' ∨ c = 'E' := by
  rw [isExponentMark, Bool.or_eq_true, decide_eq_true_iff, decide_eq_true_iff]

theorem isExponentMark_of_isDigit {c : Char} (h : c.isDigit = true) : isExponentMark c = false := by
  refine Bool.eq_false_iff.2 fun hmark ↦ ?_
  rcases isExponentMark_iff.1 hmark with rfl | rfl
  · exact absurd h (by decide)
  · exact absurd h (by decide)

theorem splitSign_chars (d : Decimal) :
    Numeral.splitSign d.chars = (decide (d.coeff < 0), positional d.coeff.natAbs d.scale) := by
  rw [chars]
  by_cases hd : d.coeff < 0
  · rw [if_pos hd, decide_eq_true hd]
    rfl
  · rw [if_neg hd, decide_eq_false hd, List.nil_append, splitSign_positional]

/-- A decimal number is read from its printed form, with its scale. -/
theorem ofChars?_chars (d : Decimal) : ofChars? d.chars = some d := by
  have hmark : d.chars.any isExponentMark = false := by
    rw [List.any_eq_false]
    intro c hc
    rw [chars, List.mem_append] at hc
    rcases hc with hc | hc
    · have hsign : c = '-' := by
        split at hc
        · exact List.mem_singleton.1 hc
        · exact absurd hc List.not_mem_nil
      subst hsign
      decide
    · rcases mem_positional hc with hdigit | rfl
      · simp [isExponentMark_of_isDigit hdigit]
      · decide
  rw [ofChars?, hmark, if_neg Bool.false_ne_true, ofPlain?, splitSign_chars]
  dsimp only
  rw [Draft.read?_positional d.coeff_lt d.scale_le]
  refine make?_eq_some_iff.2 ⟨?_, rfl⟩
  by_cases hd : d.coeff < 0
  · rw [if_pos (decide_eq_true hd)]
    omega
  · rw [if_neg (by simpa using hd)]
    omega

end Decimal

/-! ## Lexemes -/

namespace Text

theorem isNameStart_of_isDigit {c : Char} (h : c.isDigit = true) : isNameStart c = false := by
  simp only [Char.isDigit, Bool.and_eq_true, decide_eq_true_eq, UInt32.le_iff_toNat_le,
    ge_iff_le] at h
  cases hc : isNameStart c with
  | false => rfl
  | true =>
    simp only [isNameStart, Char.isAlpha, Char.isUpper, Char.isLower, Bool.or_eq_true,
      Bool.and_eq_true, decide_eq_true_eq, UInt32.le_iff_toNat_le, ge_iff_le] at hc
    rcases hc with (hc | hc) | rfl
    · exact absurd (Nat.le_trans hc.1 h.2) (by decide)
    · exact absurd (Nat.le_trans hc.1 h.2) (by decide)
    · exact absurd h.2 (by decide)

/-! ## Characters in quotes -/

/-- Whether a character stands between quotes as itself or as an escape that reading knows. -/
def isShown (c : Char) : Bool := escaped c = [c] || c ∈ ['\t', '\r', '\n', '"', '\\']

end Text

namespace Lexeme

theorem splitNumber_positional (coeff scale : Nat) :
    splitNumber (positional coeff scale) = (positional coeff scale, []) := by
  have hdigits : ∀ n, ∀ c ∈ digits n, c.isDigit = true := fun n c ↦ isDigit_of_mem_digits
  cases scale with
  | zero =>
    simp only [splitNumber, positional, List.takeWhile_eq_self_iff.2 (hdigits coeff),
      List.dropWhile_eq_nil_iff.2 (hdigits coeff), splitFraction, splitExponent, List.append_nil]
  | succ scale =>
    let n := coeff / tenPow (scale + 1)
    let ds := paddedDigits (scale + 1) coeff
    have hpadded : ∀ c ∈ ds, c.isDigit = true := fun c ↦ isDigit_of_mem_paddedDigits
    have hpoint : ∀ c ∈ ('.' :: ds).head?, c.isDigit = false := by
      intro c hc
      cases hc
      rfl
    have hne : ds.isEmpty = false := by
      rw [List.isEmpty_eq_false_iff, ← List.length_pos_iff, length_paddedDigits]
      exact Nat.succ_pos scale
    have hfraction : splitFraction ('.' :: ds) = ('.' :: ds, []) := by
      simp only [splitFraction, List.takeWhile_eq_self_iff.2 hpadded,
        List.dropWhile_eq_nil_iff.2 hpadded, hne, Bool.false_eq_true, if_false]
    change splitNumber (digits n ++ '.' :: ds) = (digits n ++ '.' :: ds, [])
    simp only [splitNumber, takeWhile_append_of_head? hpoint, dropWhile_append_of_head? hpoint,
      List.takeWhile_eq_self_iff.2 (hdigits n), List.dropWhile_eq_nil_iff.2 (hdigits n),
      List.nil_append, hfraction, splitExponent, List.append_nil]

/-- What a digit begins is cut off as a number, or is no lexeme if the number is no literal. -/
theorem cut_of_isDigit {c : Char} (hc : c.isDigit = true) (cs : List Char) :
    cut (c :: cs) =
      if (Literal.ofNumber? (splitNumber (c :: cs)).1).isSome then
        .token .number (splitNumber (c :: cs)).1 (splitNumber (c :: cs)).1 (splitNumber (c :: cs)).2
      else .fault (.invalidNumber (String.ofList (splitNumber (c :: cs)).1)) [] [] (c :: cs) := by
  have hquote : ¬ (c = '"' ∨ c = '\'') := by
    rintro (rfl | rfl)
    · exact absurd hc (by decide)
    · exact absurd hc (by decide)
  rw [cut, if_neg hquote, if_neg (by simp [isNameStart_of_isDigit hc]), if_pos hc]

theorem cut_decimal {d : Decimal} (hd : 0 ≤ d.coeff) :
    cut d.chars = .token .number d.chars d.chars [] := by
  have hnumber : Literal.ofNumber? d.chars = some (.number d) := by
    rw [Literal.ofNumber?, Decimal.ofChars?_chars d]
  rw [Decimal.chars_of_nonneg hd] at hnumber ⊢
  obtain ⟨c, cs, hcs, hdigit⟩ := positional_eq_cons d.coeff.natAbs d.scale
  have hsplit := splitNumber_positional d.coeff.natAbs d.scale
  rw [hcs] at hsplit hnumber ⊢
  rw [cut_of_isDigit hdigit]
  simp only [hsplit, hnumber, Option.isSome_some, if_true]

theorem readBody_append_escaped {c : Char} (hc : isShown c = true) (cs : List Char) :
    readBody '"' (escaped c ++ cs) = (readBody '"' cs).prepend c (escaped c) := by
  rw [isShown, Bool.or_eq_true, decide_eq_true_eq, decide_eq_true_eq] at hc
  rcases hc with hc | hc
  · have hquote : c ≠ '"' := by
      rintro rfl
      exact absurd hc (by decide)
    have hslash : c ≠ '\\' := by
      rintro rfl
      exact absurd hc (by decide)
    rw [hc]
    exact readBody_other hquote hslash cs
  · simp only [List.mem_cons, List.not_mem_nil, or_false] at hc
    rcases hc with rfl | rfl | rfl | rfl | rfl
    all_goals exact readBody_escape (by decide) rfl cs

/-- A string is read from its characters between quotes. -/
theorem readBody_flatMap_escaped {cs : List Char} (hcs : ∀ c ∈ cs, isShown c = true)
    (rest : List Char) : readBody '"' (cs.flatMap escaped ++ '"' :: rest) =
      .closed cs (cs.flatMap escaped ++ ['"']) rest := by
  induction cs with
  | nil => exact readBody_quote '"' rest
  | cons c cs ih =>
    rw [List.flatMap_cons, List.append_assoc,
      readBody_append_escaped (hcs c List.mem_cons_self),
      ih fun c hc ↦ hcs c (List.mem_cons_of_mem _ hc), Body.prepend, List.append_assoc]

/-- The printed form of a string is a lexeme. -/
theorem cut_quotedChars {cs : List Char} (hcs : ∀ c ∈ cs, isShown c = true) :
    cut (quotedChars cs) = .token .string cs (quotedChars cs) [] := by
  rw [quotedChars, cut, if_pos (.inl rfl)]
  simp only [readBody_flatMap_escaped hcs]

end Lexeme

end TemplateExpr
