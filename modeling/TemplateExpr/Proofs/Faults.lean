import TemplateExpr.Proofs.Respacing
import TemplateExpr.Proofs.Tiling

/-!
# Where a text cannot be cut

What is wrong with a text is said without the functions that cut it (`Lexeme.Flaw`): a character
that begins nothing, a string without an end or with a bad escape, and a number that is too large. A
text has a bad place where a flaw stands behind blanks and lexemes by turns (`Source.BadPlace`), and
it has no tokens exactly if it has a bad place. The error that is reported is the one of the
leftmost (`Source.tokens_eq_error_iff_leftmost`).

## Why the leftmost

A text may have several bad places, because a number is a lexeme by its pattern: behind one that is
too large, the text can go on and have other flaws. Everything else is cut in one way only. So all
bad places but the first lie behind a refused number, and reading stops at the first of these.

## Both directions by one recursion

That an error is the one of the leftmost place is shown along the recursion by which a source is cut
to its end: a bad place is either the one at which the next lexeme would stand, or one of what is
left behind that lexeme. The tiles of a text already say what a lexeme is without the functions that
cut it, so all that is left is to compare a tile with a cut (`Tile.Fits.cut_or_flaw`).
-/

namespace TemplateExpr

open Text

/-! ## Flaws -/

namespace Lexeme

/-- What is wrong at the beginning of a text, and the characters before the place of that. -/
inductive Flaw : LexFault → List Char → List Char → Prop where
  /-- No lexeme begins with the first character. -/
  | unexpectedCharacter {c : Char} {cs : List Char} (hquote : ¬ (c = '"' ∨ c = '\''))
      (hname : isNameStart c = false) (hdigit : c.isDigit = false) (hblank : isBlank c = false)
      (hsymbol : ∀ s ∈ symbols, ¬ s.toList <+: c :: cs) :
      Flaw (.unexpectedCharacter c) [] (c :: cs)
  /-- Before the closing quote of a string, a character without a meaning comes after a
  backslash. -/
  | invalidEscape {quote e : Char} {body text cs : List Char} (hquote : quote = '"' ∨ quote = '\'')
      (hbody : Unquotes quote body text) (he : unescape? e = none) :
      Flaw (.invalidEscape e) (quote :: body) (quote :: (body ++ '\\' :: e :: cs))
  /-- The text ends before the closing quote of a string, maybe right after a backslash. -/
  | unterminatedString {quote : Char} {body text tail : List Char}
      (hquote : quote = '"' ∨ quote = '\'') (hbody : Unquotes quote body text)
      (htail : tail = [] ∨ tail = ['\\']) : Flaw .unterminatedString [] (quote :: (body ++ tail))
  /-- The longest number with which the text begins is no literal. -/
  | invalidNumber {number cs : List Char} (hnumber : IsNumber number)
      (hlongest : ∀ w, IsNumber w → w <+: number ++ cs → w.length ≤ number.length)
      (hrefused : Literal.ofNumber? number = none) :
      Flaw (.invalidNumber (String.ofList number)) [] (number ++ cs)

variable {fault : LexFault} {cs before rest : List Char}

theorem backslash_ne {quote : Char} (h : quote = '"' ∨ quote = '\'') : '\\' ≠ quote := by
  rcases h with rfl | rfl <;> decide

/-- After an opening quote come characters of the string up to the closing quote, to a bad escape
or to the end of the text. -/
theorem exists_unquotes (quote : Char) (cs : List Char) : ∃ body text tail,
    Unquotes quote body text ∧ cs = body ++ tail ∧ (tail = [] ∨ tail = ['\\'] ∨
      (∃ e rest, unescape? e = none ∧ tail = '\\' :: e :: rest) ∨
        ∃ rest, tail = quote :: rest) := by
  fun_induction readBody quote cs with
  | case1 => exact ⟨[], [], [], .nil, rfl, .inl rfl⟩
  | case2 cs => exact ⟨[], [], _, .nil, rfl, .inr (.inr (.inr ⟨cs, rfl⟩))⟩
  | case3 => exact ⟨[], [], _, .nil, rfl, .inr (.inl rfl)⟩
  | case4 e cs d hd _ ih =>
    obtain ⟨body, text, tail, hbody, rfl, htail⟩ := ih
    exact ⟨_, _, tail, .escape hd hbody, rfl, htail⟩
  | case5 e cs he _ => exact ⟨[], [], _, .nil, rfl, .inr (.inr (.inl ⟨e, cs, he, rfl⟩))⟩
  | case6 c cs hquote hescape ih =>
    obtain ⟨body, text, tail, hbody, rfl, htail⟩ := ih
    exact ⟨_, _, tail, .plain hquote hescape hbody, rfl, htail⟩

theorem readBody_backslash_end {quote : Char} (hquote : '\\' ≠ quote) :
    readBody quote ['\\'] = .unclosed := by
  rw [readBody.eq_def]
  simp only [if_neg hquote, if_pos]

theorem readBody_backslash_badEscape {quote e : Char} (hquote : '\\' ≠ quote)
    (he : unescape? e = none) (cs : List Char) :
    readBody quote ('\\' :: e :: cs) = .badEscape e [] (e :: cs) := by
  rw [readBody.eq_def]
  simp only [if_neg hquote, if_pos, he]

theorem Flaw.cut_eq (h : Flaw fault before cs) :
    ∃ passed rest, cut cs = .fault fault before passed rest := by
  cases h with
  | @unexpectedCharacter c cs hquote hname hdigit _ hsymbol =>
    have hnone : symbol? (c :: cs) = none :=
      List.find?_eq_none.2 fun s hs ↦ by
        rw [List.isPrefixOf_iff_prefix]
        exact hsymbol s hs
    refine ⟨[], c :: cs, ?_⟩
    rw [cut, if_neg hquote, if_neg (by simp [hname]), if_neg (by simp [hdigit]), hnone]
  | @invalidEscape quote e body text cs hquote hbody he =>
    have hslash := backslash_ne hquote
    have hread := readBody_append_of_unquotes hslash hbody ('\\' :: e :: cs)
    rw [readBody_backslash_badEscape hslash he, Body.prependAll, List.append_nil] at hread
    rw [cut, if_pos hquote, hread]
    exact ⟨_, _, rfl⟩
  | @unterminatedString quote body text tail hquote hbody htail =>
    have hslash := backslash_ne hquote
    have hread : readBody quote (body ++ tail) = .unclosed := by
      rw [readBody_append_of_unquotes hslash hbody]
      rcases htail with rfl | rfl
      · rfl
      · rw [readBody_backslash_end hslash]
        rfl
    rw [cut, if_pos hquote, hread]
    exact ⟨_, _, rfl⟩
  | @invalidNumber number cs hnumber hlongest hrefused =>
    have hsplit := splitNumber_of_longest hnumber hlongest
    obtain ⟨c, ds, rfl⟩ := List.exists_cons_of_ne_nil hnumber.ne_nil
    rw [List.cons_append] at hsplit ⊢
    rw [cut_of_isDigit hnumber.isDigit_head, hsplit, if_neg (by simp [hrefused])]
    exact ⟨_, _, rfl⟩

theorem flaw_of_cut {passed : List Char} (h : cut cs = .fault fault before passed rest)
    (hblank : ∀ c ∈ cs.head?, isBlank c = false) : Flaw fault before cs := by
  cases cs with
  | nil => cases h
  | cons c cs =>
    by_cases hquote : c = '"' ∨ c = '\''
    · have hslash := backslash_ne hquote
      obtain ⟨body, text, tail, hbody, rfl, htail⟩ := exists_unquotes c cs
      rw [cut, if_pos hquote, readBody_append_of_unquotes hslash hbody] at h
      rcases htail with rfl | rfl | ⟨e, rest, he, rfl⟩ | ⟨rest, rfl⟩
      · cases h
        exact .unterminatedString hquote hbody (.inl rfl)
      · rw [readBody_backslash_end hslash] at h
        cases h
        exact .unterminatedString hquote hbody (.inr rfl)
      · rw [readBody_backslash_badEscape hslash he, Body.prependAll, List.append_nil] at h
        cases h
        exact .invalidEscape hquote hbody he
      · rw [readBody_quote] at h
        cases h
    by_cases hname : isNameStart c = true
    · rw [cut, if_neg hquote, if_pos hname] at h
      cases h
    by_cases hdigit : c.isDigit = true
    · rw [cut_of_isDigit hdigit] at h
      split at h
      · cases h
      · next hrefused =>
        cases h
        have hsplit := append_splitNumber (c :: cs)
        have hflaw : Flaw _ _ ((splitNumber (c :: cs)).1 ++ (splitNumber (c :: cs)).2) :=
          .invalidNumber (isNumber_splitNumber hdigit cs) (fun w hw hbegins ↦ by
            obtain ⟨rest, hrest⟩ := hsplit ▸ hbegins
            rw [← hrest]
            exact length_le_splitNumber hw rest) (by simpa using hrefused)
        rwa [hsplit] at hflaw
    · rw [cut, if_neg hquote, if_neg hname, if_neg hdigit] at h
      split at h
      · cases h
      · next hnone =>
        cases h
        refine .unexpectedCharacter hquote (Bool.eq_false_of_not_eq_true hname)
          (Bool.eq_false_of_not_eq_true hdigit) (hblank c rfl) fun s hs hbegins ↦ ?_
        exact List.find?_eq_none.1 hnone s hs (List.isPrefixOf_iff_prefix.2 hbegins)

theorem Flaw.isBlank_head (h : Flaw fault before cs) : ∀ c ∈ cs.head?, isBlank c = false := by
  have hquoted : ∀ {quote : Char}, quote = '"' ∨ quote = '\'' → isBlank quote = false := by
    rintro quote (rfl | rfl) <;> rfl
  cases h with
  | unexpectedCharacter _ _ _ hblank =>
    rintro _ ⟨⟩
    exact hblank
  | invalidEscape hquote =>
    rintro _ ⟨⟩
    exact hquoted hquote
  | unterminatedString hquote =>
    rintro _ ⟨⟩
    exact hquoted hquote
  | invalidNumber hnumber =>
    obtain ⟨c, ds, rfl⟩ := List.exists_cons_of_ne_nil hnumber.ne_nil
    rintro _ ⟨⟩
    exact isBlank_of_isNameChar (isNameChar_of_isDigit hnumber.isDigit_head)

end Lexeme

/-! ## Tiles and flaws -/

/-- What fits as a tile is cut off as one, unless it is a number that is refused. -/
theorem Tile.Fits.cut_or_flaw {t : Tile} {front back : List Char} (h : t.Fits front back) :
    (∃ kind text, Lexeme.cut (t.lexeme ++ back) = .token kind text t.lexeme back ∧ kind ≠ .eof) ∨
      ∃ fault before, Lexeme.Flaw fault before (t.lexeme ++ back) := by
  obtain ⟨blanks, lexeme, t⟩ := t
  have hspelled := h.spelled
  have hlongest := h.longest
  have hfront : ∀ x, BlankFree x → x <+: back → x <+: back := fun _ _ hx ↦ hx
  dsimp only at hspelled hlongest ⊢
  rw [Terminal.SpelledAs] at hspelled
  split at hspelled
  · obtain ⟨hname, -⟩ := hspelled
    obtain ⟨c, cs, rfl⟩ : ∃ c cs, lexeme = c :: cs := by
      cases lexeme with
      | nil => cases hname
      | cons c cs => exact ⟨c, cs, rfl⟩
    exact .inl ⟨_, _, Lexeme.cut_name_of_front hfront hlongest hname, nofun⟩
  · obtain ⟨hnumber, -⟩ := hspelled
    cases hvalid : Literal.ofNumber? lexeme with
    | none =>
      exact .inr ⟨_, _, .invalidNumber hnumber (fun w hw ↦ hlongest w (.inr (.inl hw))) hvalid⟩
    | some v =>
      obtain ⟨c, cs, rfl⟩ := List.exists_cons_of_ne_nil hnumber.ne_nil
      exact .inl ⟨_, _, Lexeme.cut_number_of_front hfront hlongest hnumber.isDigit_head hnumber
        (by rw [hvalid]; rfl), nofun⟩
  · obtain ⟨hsymbol, rfl⟩ := hspelled
    obtain ⟨c, cs, hcs, hfirst⟩ := Lexeme.exists_head_of_mem_symbols hsymbol
    rw [hcs] at hlongest ⊢
    exact .inl ⟨_, _, Lexeme.cut_symbol_of_front hfront hlongest hsymbol hcs hfirst, nofun⟩
  · obtain ⟨quote, body, hquote, rfl, hbody⟩ := hspelled
    have hread := Lexeme.readBody_of_unquotes (Lexeme.backslash_ne hquote) hbody back
    refine .inl ⟨.string, t.terminal.text.toList, ?_, nofun⟩
    rw [List.cons_append, List.append_assoc, List.singleton_append, Lexeme.cut, if_pos hquote,
      hread]
  · exact hspelled.elim

theorem isBlank_head_dropWhile (cs : List Char) :
    ∀ c ∈ (cs.dropWhile isBlank).head?, isBlank c = false := by
  intro c hc
  have hnot := List.head?_dropWhile_not isBlank cs
  rwa [Option.mem_def.1 hc] at hnot

theorem Tile.Fits.isBlank_head {t : Tile} {front back : List Char} (h : t.Fits front back) :
    ∀ c ∈ (t.lexeme ++ back).head?, isBlank c = false := by
  rcases h.cut_or_flaw with ⟨kind, text, hcut, -⟩ | ⟨fault, before, hflaw⟩
  · rw [← Lexeme.dropWhile_isBlank_of_cut hcut]
    exact isBlank_head_dropWhile _
  · exact hflaw.isBlank_head

namespace Source

/-! ## Bad places -/

/-- What is left of a text behind the characters `front` has a bad place behind the characters
`passed`: these are lexemes with blanks before them and blanks, and a flaw comes after them. -/
inductive BadPlace (e : LexError) : List Char → List Char → List Char → Prop where
  /-- A flaw comes after blanks. -/
  | here {front blanks before cs : List Char} (hblanks : ∀ c ∈ blanks, isBlank c = true)
      (hflaw : Lexeme.Flaw e.fault before cs)
      (hplace : e.position = Position.following (front ++ blanks ++ before)) :
      BadPlace e front blanks (blanks ++ cs)
  /-- The bad place comes after a tile. -/
  | behind {front passed cs : List Char} {t : Tile} (hfits : t.Fits front cs)
      (h : BadPlace e (front ++ t.chars) passed cs) :
      BadPlace e front (t.chars ++ passed) (t.chars ++ cs)

section

variable {s : Source} {e e' : LexError} {t : Token} {front passed passed' cs : List Char}

theorem BadPlace.exists_flaw (h : BadPlace e front passed cs) : ∃ before rest, cs = passed ++ rest ∧
    Lexeme.Flaw e.fault before rest ∧
    e.position = Position.following (front ++ passed ++ before) := by
  induction h with
  | here _ hflaw hplace => exact ⟨_, _, rfl, hflaw, hplace⟩
  | behind _ _ ih =>
    obtain ⟨before, rest, rfl, hflaw, hplace⟩ := ih
    refine ⟨before, rest, (List.append_assoc _ _ _).symm, hflaw, ?_⟩
    rw [hplace]
    simp only [List.append_assoc]

theorem BadPlace.unique (h : BadPlace e front passed cs) (h' : BadPlace e' front passed' cs)
    (hlen : passed.length = passed'.length) : e = e' := by
  obtain ⟨before, rest, rfl, hflaw, hplace⟩ := h.exists_flaw
  obtain ⟨before', rest', heq, hflaw', hplace'⟩ := h'.exists_flaw
  obtain ⟨rfl, rfl⟩ := List.append_inj heq hlen
  obtain ⟨_, _, hcut⟩ := hflaw.cut_eq
  obtain ⟨_, _, hcut'⟩ := hflaw'.cut_eq
  rw [hcut, Lexeme.Cut.fault.injEq] at hcut'
  obtain ⟨hfault, rfl, -⟩ := hcut'
  obtain ⟨fault, position⟩ := e
  obtain ⟨fault', position'⟩ := e'
  rw [LexError.mk.injEq]
  exact ⟨hfault, hplace.trans hplace'.symm⟩

theorem takeWhile_isBlank_append {blanks : List Char} (hblanks : ∀ c ∈ blanks, isBlank c = true)
    (hcs : ∀ c ∈ cs.head?, isBlank c = false) : (blanks ++ cs).takeWhile isBlank = blanks := by
  rw [takeWhile_append_of_head? hcs, List.takeWhile_eq_self_iff.2 hblanks]

theorem dropWhile_isBlank_append {blanks : List Char} (hblanks : ∀ c ∈ blanks, isBlank c = true)
    (hcs : ∀ c ∈ cs.head?, isBlank c = false) : (blanks ++ cs).dropWhile isBlank = cs := by
  rw [dropWhile_append_of_head? hcs, List.dropWhile_eq_nil_iff.2 hblanks, List.nil_append]

theorem BadPlace.length_takeWhile_le (h : BadPlace e front passed cs) :
    (cs.takeWhile isBlank).length ≤ passed.length := by
  cases h with
  | here hblanks hflaw => rw [takeWhile_isBlank_append hblanks hflaw.isBlank_head]
  | @behind _ passed cs tile hfits =>
    rw [Tile.chars, List.append_assoc,
      takeWhile_isBlank_append hfits.blank hfits.isBlank_head, List.append_assoc,
      List.length_append]
    exact Nat.le_add_right _ _

/-- If a source begins with a token, a bad place comes after that. -/
theorem BadPlace.exists_badPlace_next (h : BadPlace e front passed s.rest) (ht : s.next.1 = .ok t) :
    t.isEof = false ∧ ∃ chars passed', s.rest = chars ++ s.next.2.rest ∧ passed = chars ++ passed' ∧
      BadPlace e (front ++ chars) passed' s.next.2.rest := by
  obtain ⟨text, lexeme, hcut, -, -⟩ := cut_of_piece ht
  change Lexeme.cut (s.rest.dropWhile isBlank) = .token t.kind text lexeme s.next.2.rest at hcut
  generalize s.rest = cs at h hcut ⊢
  cases h with
  | here hblanks hflaw =>
    obtain ⟨_, _, hfault⟩ := hflaw.cut_eq
    rw [dropWhile_isBlank_append hblanks hflaw.isBlank_head, hfault] at hcut
    cases hcut
  | @behind _ passed cs tile hfits h =>
    rw [Tile.chars, List.append_assoc, dropWhile_isBlank_append hfits.blank hfits.isBlank_head]
      at hcut
    rcases hfits.cut_or_flaw with ⟨kind, text', hcut', hkind⟩ | ⟨fault, before, hflaw⟩
    · rw [hcut', Lexeme.Cut.token.injEq] at hcut
      obtain ⟨rfl, -, -, hrest⟩ := hcut
      refine ⟨by simpa [Token.isEof] using hkind, tile.chars, passed, by rw [hrest], rfl, ?_⟩
      rwa [← hrest]
    · obtain ⟨_, _, hfault⟩ := hflaw.cut_eq
      rw [hfault] at hcut
      cases hcut

/-! ## The next lexeme -/

theorem badPlace_of_next (h : s.next.1 = .error e) (hs : s.position = Position.following front) :
    BadPlace e front (s.rest.takeWhile isBlank) s.rest := by
  have hsplit := List.takeWhile_append_dropWhile (p := isBlank) (l := s.rest)
  have hplace := position_skipBlanks hs
  cases hcut : Lexeme.cut s.skipBlanks.rest with
  | token => simp [next, piece, hcut] at h
  | fault fault before passed rest =>
    rw [next, piece, hcut] at h
    cases h
    have hbad : BadPlace ⟨fault, s.skipBlanks.position.after before⟩ front
        (s.rest.takeWhile isBlank) (s.rest.takeWhile isBlank ++ s.rest.dropWhile isBlank) := by
      refine .here (fun c hc ↦ List.mem_takeWhile_imp hc) (Lexeme.flaw_of_cut hcut
        (isBlank_head_dropWhile _)) ?_
      rw [hplace, ← Position.after_start, ← Position.after_start, ← Position.after_append]
    rwa [hsplit] at hbad

/-! ## Whole sources -/

/-- The error with which a source ends is the one of its leftmost bad place. -/
theorem badPlace_of_scan {ts : List Token} (h : s.scan = (ts, some e))
    (hs : s.position = Position.following front) : ∃ passed, BadPlace e front passed s.rest ∧
      ∀ e' passed', BadPlace e' front passed' s.rest → passed.length ≤ passed'.length := by
  fun_induction scan s generalizing ts front with
  | case1 s e' he =>
    cases h
    exact ⟨_, badPlace_of_next he hs, fun _ _ h' ↦ h'.length_takeWhile_le⟩
  | case2 => cases h
  | case3 s t ht heof _ ts error hscan ih =>
    cases h
    obtain ⟨tile, rfl, hrest, hplace, hfits⟩ := tile_of_next ht (by simpa using heof) hs
    obtain ⟨passed, hbad, hmin⟩ := ih hscan hplace
    refine ⟨tile.chars ++ passed, hrest ▸ .behind hfits hbad, fun e' passed' h' ↦ ?_⟩
    obtain ⟨-, chars, passed', hrest', rfl, htail⟩ := h'.exists_badPlace_next ht
    obtain rfl : tile.chars = chars := List.append_cancel_right (hrest.symm.trans hrest')
    rw [List.length_append, List.length_append]
    exact Nat.add_le_add_left (hmin _ _ htail) _

theorem BadPlace.exists_error (h : BadPlace e front passed s.rest) :
    ∃ ts e', s.scan = (ts, some e') := by
  fun_induction scan s generalizing front passed with
  | case1 s e' => exact ⟨_, e', rfl⟩
  | case2 s t ht heof =>
    obtain ⟨heof', -⟩ := h.exists_badPlace_next ht
    rw [heof] at heof'
    cases heof'
  | case3 s t ht heof _ ts error hscan ih =>
    obtain ⟨-, _, _, -, -, htail⟩ := h.exists_badPlace_next ht
    obtain ⟨ts', e', hscan'⟩ := ih htail
    rw [hscan] at hscan'
    cases hscan'
    exact ⟨_, e', rfl⟩

theorem tokens_eq_error_iff_scan : s.tokens = .error e ↔ ∃ ts, s.scan = (ts, some e) := by
  rw [tokens]
  split
  · next hscan => simp [hscan]
  · next hscan => simp [hscan]

end

/-- A text has no tokens exactly if it has a bad place, and the error that is reported is the one of
the leftmost. -/
theorem tokens_eq_error_iff_leftmost (s : String) :
    ((∃ e, (ofString s).tokens = .error e) ↔ ∃ e passed, BadPlace e [] passed s.toList) ∧
      ∀ e, (ofString s).tokens = .error e ↔ ∃ passed, BadPlace e [] passed s.toList ∧
        ∀ e' passed', BadPlace e' [] passed' s.toList → passed.length ≤ passed'.length := by
  have hplace : (ofString s).position = Position.following [] := rfl
  have hleftmost : ∀ {e}, (ofString s).tokens = .error e → ∃ passed,
      BadPlace e [] passed s.toList ∧
        ∀ e' passed', BadPlace e' [] passed' s.toList → passed.length ≤ passed'.length := by
    intro e h
    obtain ⟨ts, hscan⟩ := tokens_eq_error_iff_scan.1 h
    exact badPlace_of_scan hscan hplace
  have herror : ∀ {e passed}, BadPlace e [] passed s.toList →
      ∃ e', (ofString s).tokens = .error e' := by
    intro e passed h
    have hbad : BadPlace e [] passed (ofString s).rest := h
    obtain ⟨ts, e', hscan⟩ := hbad.exists_error
    exact ⟨e', tokens_eq_error_iff_scan.2 ⟨ts, hscan⟩⟩
  refine ⟨⟨?_, ?_⟩, fun e ↦ ⟨hleftmost, ?_⟩⟩
  · rintro ⟨e, h⟩
    obtain ⟨passed, hbad, -⟩ := hleftmost h
    exact ⟨e, passed, hbad⟩
  · rintro ⟨e, passed, hbad⟩
    exact herror hbad
  · rintro ⟨passed, hbad, hmin⟩
    obtain ⟨e', h⟩ := herror hbad
    obtain ⟨passed', hbad', hmin'⟩ := hleftmost h
    have hlen := le_antisymm (hmin e' passed' hbad') (hmin' e passed hbad)
    rw [h, hbad.unique hbad' hlen]

/-- Neither the escaped quote before it nor the unexpected character behind it hides a bad
escape. -/
example : (ofString "x 'a\n\\'\\q' #").tokens =
    .error ⟨.invalidEscape 'q', ⟨2, 3, 7⟩⟩ := by decide +kernel

end Source

end TemplateExpr
