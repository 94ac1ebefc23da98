import TemplateExpr.Proofs.LongestMatch

/-!
# Other blanks between the lexemes

A text with other blanks between its lexemes and around them is cut into the same terminals
(`Relaid.exists_lexes`). Blanks may come in where there were none, but where some have been, some
have to be left.

## Looking ahead

Only a number looks further than to the next character, and what it looks at may reach beyond the
next lexeme. All the same it looks at no blank. So what matters of the text after a lexeme is what
stands before its first blank, and of that there is less after the change
(`Relaid.prefix_of_blankFree`). A longer lexeme in the new text would therefore have been there in
the old one, and been cut off it.

## By the longest match

Whether a lexeme is still cut off is not shown by running the functions that cut on the new text.
They cut off some word, the longest one that begins there, and the lexeme is a word that begins
there and is not shorter (`Lexeme.eq_of_longest`). Strings are no words, but they end at their quote
and look at nothing behind it.
-/

namespace TemplateExpr

open Text

/-! ## Texts without blanks -/

/-- No character is a blank. -/
def BlankFree (cs : List Char) : Prop := ∀ c ∈ cs, isBlank c = false

theorem BlankFree.eq_nil {c : Char} {x ds : List Char} (hx : BlankFree x)
    (hc : isBlank c = true) (h : x <+: c :: ds) : x = [] := by
  cases x with
  | nil => rfl
  | cons d x =>
    obtain ⟨rfl, -⟩ := List.cons_prefix_cons.1 h
    rw [hx d List.mem_cons_self] at hc
    cases hc

namespace Lexeme

theorem IsDigits.blankFree {cs : List Char} (h : IsDigits cs) : BlankFree cs :=
  fun c hc ↦ isBlank_of_isNameChar (isNameChar_of_isDigit (h.2 c hc))

theorem IsFraction.blankFree {cs : List Char} (h : IsFraction cs) : BlankFree cs := by
  rcases h with rfl | ⟨ds, hds, rfl⟩
  · exact List.forall_mem_nil _
  · exact List.forall_mem_cons.2 ⟨rfl, hds.blankFree⟩

theorem IsExponent.blankFree {cs : List Char} (h : IsExponent cs) : BlankFree cs := by
  rcases h with rfl | ⟨c, sign, ds, hc, hsign, hds, rfl⟩
  · exact List.forall_mem_nil _
  refine List.forall_mem_cons.2 ⟨?_, List.forall_mem_append.2 ⟨?_, hds.blankFree⟩⟩
  · rcases hc with rfl | rfl <;> rfl
  · simp only [List.mem_cons, List.not_mem_nil, or_false] at hsign
    rcases hsign with rfl | rfl | rfl
    · exact List.forall_mem_nil _
    · exact List.forall_mem_singleton.2 rfl
    · exact List.forall_mem_singleton.2 rfl

theorem IsWord.blankFree {w : List Char} (h : IsWord w) : BlankFree w := by
  rcases h with h | ⟨whole, fraction, exponent, hwhole, hfraction, hexponent, rfl⟩ | ⟨s, hs, rfl⟩
  · exact fun c hc ↦ isBlank_of_isNameChar (isNameChar_of_isName h c hc)
  · exact List.forall_mem_append.2 ⟨hwhole.blankFree,
      List.forall_mem_append.2 ⟨hfraction.blankFree, hexponent.blankFree⟩⟩
  · have hall : ∀ s ∈ symbols, s.toList.any isBlank = false := by decide
    exact fun c hc ↦ Bool.eq_false_iff.2 (List.any_eq_false.1 (hall s hs) c hc)

/-- Puts characters of the string and their spelling in front. -/
def Body.prependAll (text spelled : List Char) : Body → Body
  | closed text' spelling rest => closed (text ++ text') (spelled ++ spelling) rest
  | badEscape e before rest => badEscape e (spelled ++ before) rest
  | unclosed => unclosed

/-! ## Strings -/

/-- Characters that stand between quotes are read, and what comes of the string is up to the
rest. -/
theorem readBody_append_of_unquotes {quote : Char} {body text : List Char} (hquote : '\\' ≠ quote)
    (h : Unquotes quote body text) (rest : List Char) :
    readBody quote (body ++ rest) = (readBody quote rest).prependAll text body := by
  induction h with
  | nil => cases hrest : readBody quote rest <;> exact hrest
  | plain hne hescape _ ih =>
    rw [List.cons_append, readBody_other hne hescape, ih]
    cases readBody quote rest <;> rfl
  | escape hd _ ih =>
    rw [List.cons_append, List.cons_append, readBody_escape hquote hd, ih]
    cases readBody quote rest <;> rfl

theorem readBody_of_unquotes {quote : Char} {body text : List Char} (hquote : '\\' ≠ quote)
    (h : Unquotes quote body text) (rest : List Char) :
    readBody quote (body ++ quote :: rest) = .closed text (body ++ [quote]) rest := by
  rw [readBody_append_of_unquotes hquote h, readBody_quote, Body.prependAll, List.append_nil]

theorem isSome_ofNumber?_of_cut {cs text spelling rest : List Char}
    (h : cut cs = .token .number text spelling rest) : (Literal.ofNumber? text).isSome = true := by
  cases cs with
  | nil => cases h
  | cons c cs =>
    rw [cut] at h
    split at h
    · split at h <;> cases h
    split at h
    · cases h
    split at h
    · dsimp only at h
      split at h
      · next hvalid =>
        cases h
        exact hvalid
      · cases h
    · split at h <;> cases h

theorem not_quote_of_isNameChar {c : Char} (h : isNameChar c = true) :
    ¬ (c = '"' ∨ c = '\'') := by
  rintro (rfl | rfl)
  · exact absurd h (by decide)
  · exact absurd h (by decide)

/-! ## Words before another text -/

section Front

variable {c : Char} {cs spelling rest rest' : List Char}
  (hfront : ∀ x, BlankFree x → x <+: rest' → x <+: rest)
include hfront

/-- If a word that begins where a lexeme begins in the new text is not shorter, it is the lexeme,
provided that no longer word began there in the old text. -/
theorem eq_of_longest {w : List Char}
    (hlongest : ∀ w, IsWord w → w <+: spelling ++ rest → w.length ≤ spelling.length)
    (hw : IsWord w) (hbegins : w <+: spelling ++ rest') (hlen : spelling.length ≤ w.length) :
    w = spelling := by
  obtain ⟨x, rfl⟩ := List.prefix_of_prefix_length_le (List.prefix_append spelling rest') hbegins
    hlen
  have hx : x <+: rest := by
    refine hfront x (fun c hc ↦ hw.blankFree c (List.mem_append_right _ hc)) ?_
    exact (List.prefix_append_right_inj spelling).1 hbegins
  have hle := hlongest _ hw ((List.prefix_append_right_inj spelling).2 hx)
  rw [List.length_append] at hle
  have hnil : x = [] := List.length_eq_zero_iff.1 (by omega)
  rw [hnil, List.append_nil]

variable (hlongest : ∀ w, IsWord w → w <+: (c :: cs) ++ rest → w.length ≤ (c :: cs).length)
include hlongest

theorem cut_name_of_front (hname : isName (c :: cs) = true) :
    cut ((c :: cs) ++ rest') = .token .identifier (c :: cs) (c :: cs) rest' := by
  have hstart : isNameStart c = true := (Bool.and_eq_true_iff.1 hname).1
  have hchars := isNameChar_of_isName hname
  have hrun : ((c :: cs) ++ rest').takeWhile isNameChar = c :: cs := by
    refine eq_of_longest hfront hlongest (.inl ?_) (List.takeWhile_prefix _) ?_
    · rw [List.cons_append, List.takeWhile_cons_of_pos (isNameChar_of_isNameStart hstart), isName,
        hstart, Bool.true_and]
      exact List.all_takeWhile
    · rw [List.takeWhile_append_of_pos hchars, List.length_append]
      exact Nat.le_add_right _ _
  have hsplit := List.takeWhile_append_dropWhile (p := isNameChar) (l := (c :: cs) ++ rest')
  rw [hrun] at hsplit
  have hquote := not_quote_of_isNameChar (isNameChar_of_isNameStart hstart)
  rw [List.cons_append, cut, if_neg hquote, if_pos hstart, ← List.cons_append, hrun,
    List.append_cancel_left hsplit]

theorem cut_number_of_front (hc : c.isDigit = true) (hnumber : IsNumber (c :: cs))
    (hvalid : (Literal.ofNumber? (c :: cs)).isSome = true) :
    cut ((c :: cs) ++ rest') = .token .number (c :: cs) (c :: cs) rest' := by
  have hsplit := append_splitNumber ((c :: cs) ++ rest')
  have hword : IsWord (splitNumber ((c :: cs) ++ rest')).1 :=
    .inr (.inl (isNumber_splitNumber hc (cs ++ rest')))
  have hrun : (splitNumber ((c :: cs) ++ rest')).1 = c :: cs :=
    eq_of_longest hfront hlongest hword ⟨_, hsplit⟩ (length_le_splitNumber hnumber rest')
  rw [hrun] at hsplit
  rw [List.cons_append, cut_of_isDigit hc, ← List.cons_append, hrun, if_pos hvalid,
    List.append_cancel_left hsplit]

theorem cut_symbol_of_front {s : String} (hs : s ∈ symbols) (hspelling : s.toList = c :: cs)
    (hc : ¬ (c = '"' ∨ c = '\'' ∨ isNameStart c = true ∨ c.isDigit = true)) :
    cut ((c :: cs) ++ rest') = .token .symbol (c :: cs) (c :: cs) rest' := by
  have hbegins : s.toList <+: (c :: cs) ++ rest' := hspelling ▸ List.prefix_append _ _
  -- some symbol is found in the new text, since this one is there
  obtain ⟨s', hfind⟩ : ∃ s', symbol? ((c :: cs) ++ rest') = some s' :=
    Option.isSome_iff_exists.1
      (List.find?_isSome.2 ⟨s, hs, List.isPrefixOf_iff_prefix.2 hbegins⟩)
  have hsplit := append_drop_of_symbol? hfind
  have hrun : s'.toList = c :: cs :=
    eq_of_longest hfront hlongest (.inr (.inr ⟨s', List.mem_of_find?_eq_some hfind, rfl⟩))
      ⟨_, hsplit⟩ (hspelling ▸ length_le_symbol? hfind hs hbegins)
  simp only [not_or] at hc
  obtain ⟨hdouble, hsingle, hname, hdigit⟩ := hc
  rw [hrun] at hsplit
  rw [List.cons_append, cut, if_neg (not_or.2 ⟨hdouble, hsingle⟩), if_neg hname, if_neg hdigit,
    ← List.cons_append, hfind]
  dsimp only
  rw [hrun, List.append_cancel_left hsplit]

end Front

/-! ## Lexemes -/

/-- A lexeme is cut off another text as well, if what the new text begins with before its first
blank is what the old one begins with. -/
theorem cut_of_front {kind : TokenKind} {text spelling rest rest' : List Char}
    (h : cut (spelling ++ rest) = .token kind text spelling rest) (hkind : kind ≠ .eof)
    (hfront : ∀ x, BlankFree x → x <+: rest' → x <+: rest) :
    cut (spelling ++ rest') = .token kind text spelling rest' := by
  have hlongest : ∀ w, IsWord w → w <+: spelling ++ rest → w.length ≤ spelling.length :=
    fun w hw ↦ length_le_of_cut h hkind hw
  have hspelled := spelledAs_of_cut h hkind
  obtain ⟨c, ds, hcs, hcut⟩ := of_cut_eq_token h hkind
  obtain ⟨d, cs, rfl⟩ := List.exists_cons_of_ne_nil (spelling_ne_nil h hkind)
  obtain ⟨rfl, rfl⟩ := List.cons.inj hcs
  rcases hcut with ⟨rfl, hquote, tail, hbody, heq⟩ | ⟨rfl, -, rfl, -⟩ | ⟨rfl, hdigit, rfl, -⟩ |
    ⟨rfl, hother, s, hs, rfl, hspelling⟩
  · obtain ⟨-, rfl⟩ := List.cons.inj heq
    obtain ⟨body, rfl, hunquotes⟩ := unquotes_of_readBody hbody
    have hslash : '\\' ≠ d := by rcases hquote with rfl | rfl <;> decide
    have hread := readBody_of_unquotes hslash hunquotes rest'
    rw [List.cons_append, List.append_assoc, List.singleton_append, cut, if_pos hquote, hread]
  · exact cut_name_of_front hfront hlongest hspelled.1
  · exact cut_number_of_front hfront hlongest hdigit hspelled.1 (isSome_ofNumber?_of_cut h)
  · rw [← hspelling]
    exact cut_symbol_of_front hfront hlongest (List.mem_of_find?_eq_some hs) hspelling.symm hother

end Lexeme

/-! ## Other blanks -/

/-- A text with other blanks before its lexemes and at its end. Where there have been blanks, some
have to be left. -/
inductive Relaid : List Char → List Char → Prop where
  /-- Nothing but blanks is left. -/
  | blank {blanks gap : List Char} (hblanks : ∀ c ∈ blanks, isBlank c = true)
      (hgap : ∀ c ∈ gap, isBlank c = true) : Relaid blanks gap
  /-- A lexeme comes after blanks, and after other blanks in the new text. -/
  | piece {blanks gap text lexeme rest rest' : List Char} {kind : TokenKind}
      (hcut : Lexeme.cut (lexeme ++ rest) = .token kind text lexeme rest) (hkind : kind ≠ .eof)
      (hblanks : ∀ c ∈ blanks, isBlank c = true) (hgap : ∀ c ∈ gap, isBlank c = true)
      (hleft : blanks ≠ [] → gap ≠ []) (hrest : Relaid rest rest') :
      Relaid (blanks ++ (lexeme ++ rest)) (gap ++ (lexeme ++ rest'))

namespace Relaid

variable {cs cs' : List Char}

theorem prefix_of_blankFree (h : Relaid cs cs') {x : List Char} (hx : BlankFree x)
    (hbegins : x <+: cs') : x <+: cs := by
  induction h generalizing x with
  | @blank blanks gap _ hgap =>
    have hnil : x = [] := by
      cases gap with
      | nil => exact List.prefix_nil.1 hbegins
      | cons c gap => exact hx.eq_nil (hgap c List.mem_cons_self) hbegins
    rw [hnil]
    exact List.nil_prefix
  | @piece blanks gap text lexeme rest rest' kind _ _ _ hgap hleft _ ih =>
    cases gap with
    | cons c gap =>
      rw [hx.eq_nil (hgap c List.mem_cons_self) hbegins]
      exact List.nil_prefix
    | nil =>
      -- no blanks came before the lexeme in the old text either
      have hnone : blanks = [] := by
        by_contra hne
        exact hleft hne rfl
      rw [List.nil_append] at hbegins
      rw [hnone, List.nil_append]
      rcases List.prefix_or_prefix_of_prefix hbegins (List.prefix_append lexeme rest') with
        hle | ⟨y, rfl⟩
      · exact hle.trans (List.prefix_append _ _)
      · have hy := (List.prefix_append_right_inj lexeme).1 hbegins
        exact (List.prefix_append_right_inj lexeme).2
          (ih (fun c hc ↦ hx c (List.mem_append_right _ hc)) hy)

/-- A text and the one with other blanks are cut into the same terminals. -/
theorem exists_lexes (h : Relaid cs cs') : ∃ ts, Lexes cs ts ∧ Lexes cs' ts := by
  induction h with
  | blank hblanks hgap =>
    exact ⟨[], .blank (List.dropWhile_eq_nil_iff.2 hblanks),
      .blank (List.dropWhile_eq_nil_iff.2 hgap)⟩
  | piece hcut hkind hblanks hgap _ hrest ih =>
    obtain ⟨ts, hlexes, hlexes'⟩ := ih
    have hcut' := Lexeme.cut_of_front hcut hkind fun x hx ↦ hrest.prefix_of_blankFree hx
    exact ⟨_, (Lexes.of_cut hcut hkind hlexes).blanks_append (List.dropWhile_eq_nil_iff.2 hblanks),
      (Lexes.of_cut hcut' hkind hlexes').blanks_append (List.dropWhile_eq_nil_iff.2 hgap)⟩

end Relaid

end TemplateExpr
