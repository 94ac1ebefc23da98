import TemplateExpr.Proofs.Literals

/-!
# Strings in quotes as texts

The text of a string is the token of that string exactly if the string has no unprintable characters
but tabs and ends of lines (`Source.tokens_text_string`). If there is another one, the first of them
is refused at its backslash.

## Two tables

Writing and reading strings go by two tables. A string is written between quotes with every
character that is not printable as an escape, and reading knows six escapes. Three of the
unprintable characters are among them, the tab and the ends of lines; the others are written by
their code point, or as `\0`, and these escapes cannot be read. What is shown and what is not is
settled for one character at a time (`Text.isShown_iff`), without a look at how the table of
unprintable characters is made.

## Where a text is refused

The escapes before the first bad one are all read, so the fault is where the printed forms of the
characters before it end. The place is that of the backslash, and the letter that is reported is the
one after it.
-/

namespace TemplateExpr

open Text

/-! ## Characters -/

namespace Text

theorem escapeLetter?_eq_none {c : Char} (h : c ∉ ['\x00', '\t', '\r', '\n', '"', '\\']) :
    escapeLetter? c = none := by
  rw [escapeLetter?.eq_def]
  split <;> first | rfl | simp at h

/-- The characters that are shown are the printable ones and three of the others. -/
theorem isShown_iff {c : Char} :
    isShown c = true ↔ (isUnprintable c = true → c ∈ ['\t', '\r', '\n']) := by
  by_cases hc : c ∈ ['\x00', '\t', '\r', '\n', '"', '\\']
  · simp only [List.mem_cons, List.not_mem_nil, or_false] at hc
    rcases hc with rfl | rfl | rfl | rfl | rfl | rfl <;> decide
  · rw [isShown, escaped, escapeLetter?_eq_none hc]
    cases hu : isUnprintable c <;> simp_all

/-- The letter after the backslash of a character that is not shown. -/
def hiddenMark (c : Char) : Char := if c = '\x00' then '0' else 'u'

theorem escaped_of_isShown_eq_false {c : Char} (h : isShown c = false) :
    ∃ cs, escaped c = '\\' :: hiddenMark c :: cs := by
  by_cases hc : c ∈ ['\x00', '\t', '\r', '\n', '"', '\\']
  · simp only [List.mem_cons, List.not_mem_nil, or_false] at hc
    rcases hc with rfl | hc
    · exact ⟨[], rfl⟩
    · rcases hc with rfl | rfl | rfl | rfl | rfl <;> exact absurd h (by decide)
  · have hmark : hiddenMark c = 'u' := if_neg fun hzero ↦ hc (by simp [hzero])
    rw [isShown, escaped, escapeLetter?_eq_none hc] at h
    rw [escaped, escapeLetter?_eq_none hc, hmark]
    cases hu : isUnprintable c with
    | true => exact ⟨_, rfl⟩
    | false => simp [hu] at h

end Text

/-! ## Bad escapes -/

namespace Lexeme

theorem readBody_badEscape {e : Char} (he : unescape? e = none) (cs : List Char) :
    readBody '"' ('\\' :: e :: cs) = .badEscape e [] (e :: cs) := by
  have hquote : '\\' ≠ '"' := by decide
  rw [readBody.eq_def]
  simp only [if_neg hquote, if_pos, he]

theorem readBody_flatMap_badEscape {cs rest before back : List Char} {e : Char}
    (hcs : ∀ c ∈ cs, isShown c = true) (h : readBody '"' rest = .badEscape e before back) :
    readBody '"' (cs.flatMap escaped ++ rest) =
      .badEscape e (cs.flatMap escaped ++ before) back := by
  induction cs with
  | nil => exact h
  | cons c cs ih =>
    rw [List.flatMap_cons, List.append_assoc, readBody_append_escaped (hcs c List.mem_cons_self),
      ih fun c hc ↦ hcs c (List.mem_cons_of_mem _ hc), Body.prepend, List.append_assoc]

/-- The first character that is not shown makes a fault. -/
theorem cut_quotedChars_of_hidden {front : List Char} {c : Char}
    (hfront : ∀ c ∈ front, isShown c = true) (hc : isShown c = false) (back : List Char) :
    ∃ passed rest, cut (quotedChars (front ++ c :: back)) =
      .fault (.invalidEscape (hiddenMark c)) ('"' :: front.flatMap escaped) passed rest := by
  obtain ⟨cs, hcs⟩ := escaped_of_isShown_eq_false hc
  have hmark : unescape? (hiddenMark c) = none := by
    rw [hiddenMark]
    split <;> rfl
  have hbody := readBody_flatMap_badEscape hfront
    (readBody_badEscape hmark (cs ++ (back.flatMap escaped ++ ['"'])))
  have hchars : (front ++ c :: back).flatMap escaped ++ ['"'] = front.flatMap escaped ++
      '\\' :: hiddenMark c :: (cs ++ (back.flatMap escaped ++ ['"'])) := by
    simp [hcs]
  rw [List.append_nil] at hbody
  rw [quotedChars, cut, if_pos (.inl rfl), hchars]
  simp only [hbody]
  exact ⟨_, _, rfl⟩

end Lexeme

namespace Source

theorem ofString_text_string (s : String) :
    ofString (Literal.string s).text = ⟨quotedChars s.toList, Position.start⟩ :=
  ofString_ofList _

/-! ## Texts of strings -/

theorem isBlank_head_quotedChars (cs : List Char) :
    ∀ c ∈ (quotedChars cs).head?, isBlank c = false := by
  rintro _ ⟨⟩
  decide

theorem tokens_text_of_isShown {s : String} (hs : ∀ c ∈ s.toList, isShown c = true) :
    (ofString (Literal.string s).text).tokens = .ok [⟨.string, s, Position.start⟩,
      Token.eof (Position.start.after (Literal.string s).text.toList)] := by
  have htext : (Literal.string s).text.toList = quotedChars s.toList := String.toList_ofList
  have htokens := tokens_of_cut (s := ⟨quotedChars s.toList, Position.start⟩)
    (Lexeme.cut_quotedChars hs) (by decide) (isBlank_head_quotedChars _)
  rw [ofString_text_string, htext, htokens, String.ofList_toList]

/-- The first character that is not shown is refused. -/
theorem tokens_text_of_hidden {s : String} {front back : List Char} {c : Char}
    (hs : s.toList = front ++ c :: back) (hfront : ∀ d ∈ front, isShown d = true)
    (hc : isShown c = false) :
    (ofString (Literal.string s).text).tokens = .error ⟨.invalidEscape (hiddenMark c),
      Position.start.after ('"' :: front.flatMap escaped)⟩ := by
  obtain ⟨passed, rest, hcut⟩ := Lexeme.cut_quotedChars_of_hidden hfront hc back
  rw [ofString_text_string, hs]
  exact tokens_of_fault (s := ⟨_, Position.start⟩) hcut (isBlank_head_quotedChars _)

/-! ## Which strings are read back -/

/-- The text of a string is its token exactly if the string has no unprintable characters but tabs
and ends of lines; otherwise the first of the others is refused. -/
theorem tokens_text_string (s : String) :
    let text := (Literal.string s).text
    ((ofString text).tokens = .ok [⟨.string, s, Position.start⟩,
        Token.eof (Position.start.after text.toList)] ↔
      ∀ c ∈ s.toList, isUnprintable c = true → c ∈ ['\t', '\r', '\n']) ∧
    ∀ front c back, s.toList = front ++ c :: back →
      (∀ d ∈ front, isUnprintable d = true → d ∈ ['\t', '\r', '\n']) →
      isUnprintable c = true → c ∉ ['\t', '\r', '\n'] →
      (ofString text).tokens = .error ⟨.invalidEscape (if c = '\x00' then '0' else 'u'),
        Position.start.after ('"' :: front.flatMap escaped)⟩ := by
  intro text
  simp only [← isShown_iff]
  refine ⟨⟨fun htokens ↦ ?_, tokens_text_of_isShown⟩, fun front c back hs hfront hc hc' ↦ ?_⟩
  · by_contra hhidden
    obtain ⟨c, hc⟩ : ∃ c, s.toList.find? (!isShown ·) = some c := by
      simpa [← Option.isSome_iff_exists] using hhidden
    obtain ⟨hc, front, back, hs, hfront⟩ := List.find?_eq_some_iff_append.1 hc
    rw [tokens_text_of_hidden hs (by simpa using hfront) (by simpa using hc)] at htokens
    cases htokens
  · exact tokens_text_of_hidden hs hfront
      (Bool.eq_false_iff.2 fun hshown ↦ hc' (isShown_iff.1 hshown hc))

theorem not_tokens_text_string :
    let s := "a\u00A0b"
    let tokens := (ofString (Literal.string s).text).tokens
    tokens = .error ⟨.invalidEscape 'u', ⟨1, 3, 2⟩⟩ ∧
      ∀ p, tokens ≠ .ok [⟨.string, s, Position.start⟩, Token.eof p] := by
  intro s tokens
  have herror : tokens = .error ⟨.invalidEscape 'u', ⟨1, 3, 2⟩⟩ := by decide +kernel
  refine ⟨herror, fun p hok ↦ ?_⟩
  rw [herror] at hok
  cases hok

end Source

end TemplateExpr
