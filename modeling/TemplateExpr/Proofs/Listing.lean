import TemplateExpr.Proofs.JsonText
import TemplateExpr.Proofs.Quoting

/-!
# Listings

A listing of tokens has one line for each, and a line has three fields. Both are got back by
splitting, at line feeds and at tabs, because neither of these stands in a field. So a listing tells
of each token all that is written of it, its line, its column, its kind and its text
(`Token.listing_lossless`).

## Quoted texts

The text of a token may hold any characters, line feeds and tabs among them, but it is written
between quotes, where both are escaped. That a quoted text is got back is shown by reading it one
character at a time (`Text.readEscaped?_escaped`). Every character is written in a way of its own
that can be told from what comes after it, also where a text looks like an escape: the backslash of
such a text is escaped itself, and an escape by code point ends at its closing brace.

## Splitting

A line is its fields with tabs between them, and a listing is its lines with line feeds between
them. If no field has the separator in it, splitting gives back the parts, and there is no case in
which a field is empty or missing to be told apart. An empty listing is no line at all, so it is
left out where lines are counted.
-/

namespace TemplateExpr

/-! ## Fields -/

/-- Characters that can stand in a field of a listing. -/
def FitsField (cs : List Char) : Prop := ∀ c ∈ cs, c ≠ '\n' ∧ c ≠ '\t'

instance (cs : List Char) : Decidable (FitsField cs) :=
  List.decidableBAll _ cs

theorem FitsField.append {cs ds : List Char} (hcs : FitsField cs) (hds : FitsField ds) :
    FitsField (cs ++ ds) :=
  List.forall_mem_append.2 ⟨hcs, hds⟩

theorem FitsField.cons {c : Char} {cs : List Char} (hc : c ≠ '\n' ∧ c ≠ '\t')
    (hcs : FitsField cs) : FitsField (c :: cs) :=
  List.forall_mem_cons.2 ⟨hc, hcs⟩

namespace Text

/-! ## Hexadecimal digits -/

/-- The number that hexadecimal digits denote. -/
def readHex (cs : List Char) : ℕ := cs.foldl (fun n c ↦ 16 * n + Json.hexValue c) 0

theorem hexValue_digitChar : ∀ n < 16, Json.hexValue (Nat.digitChar n) = n := by decide

theorem readHex_toDigits (n : ℕ) : readHex (Nat.toDigits 16 n) = n := by
  induction n using Nat.strongRecOn with
  | ind n ih =>
    by_cases hn : n < 16
    · rw [Nat.toDigits_of_lt_base hn]
      show 16 * 0 + Json.hexValue _ = n
      rw [hexValue_digitChar n hn, Nat.mul_zero, Nat.zero_add]
    · rw [Nat.toDigits_of_base_le (by decide) (by omega), readHex, List.foldl_concat]
      show 16 * readHex (Nat.toDigits 16 (n / 16)) + Json.hexValue _ = n
      rw [ih _ (by omega), hexValue_digitChar _ (Nat.mod_lt _ (by decide))]
      omega

theorem exists_digitChar_of_mem_toDigits {n : ℕ} {c : Char} (h : c ∈ Nat.toDigits 16 n) :
    ∃ k < 16, c = Nat.digitChar k := by
  induction n using Nat.strongRecOn with
  | ind n ih =>
    by_cases hn : n < 16
    · rw [Nat.toDigits_of_lt_base hn, List.mem_singleton] at h
      exact ⟨n, hn, h⟩
    · rw [Nat.toDigits_of_base_le (by decide) (by omega), List.mem_append,
        List.mem_singleton] at h
      rcases h with h | h
      · exact ih _ (by omega) h
      · exact ⟨n % 16, Nat.mod_lt _ (by decide), h⟩

/-! ## Quoted texts -/

/-- Reads the first character of a quoted text. -/
def readEscaped? : List Char → Option (Char × List Char)
  | [] => none
  | '\\' :: 'u' :: '\x7b' :: rest =>
    some (Char.ofNat (readHex (rest.takeWhile (· ≠ '\x7d'))), (rest.dropWhile (· ≠ '\x7d')).tail)
  | '\\' :: '0' :: rest => some ('\x00', rest)
  | '\\' :: 't' :: rest => some ('\t', rest)
  | '\\' :: 'r' :: rest => some ('\r', rest)
  | '\\' :: 'n' :: rest => some ('\n', rest)
  | '\\' :: c :: rest => some (c, rest)
  | c :: rest => some (c, rest)

theorem readEscaped?_hex (c : Char) (rest : List Char) :
    readEscaped? ('\\' :: 'u' :: '\x7b' :: (Nat.toDigits 16 c.toNat ++ '\x7d' :: rest)) =
      some (c, rest) := by
  have hdigits : ∀ d ∈ Nat.toDigits 16 c.toNat, decide (d ≠ '\x7d') = true := by
    intro d hd
    obtain ⟨k, hk, rfl⟩ := exists_digitChar_of_mem_toDigits hd
    exact (by decide : ∀ k < 16, decide (Nat.digitChar k ≠ '\x7d') = true) k hk
  rw [readEscaped?, List.takeWhile_append_of_pos hdigits, List.dropWhile_append_of_pos hdigits]
  simp [readHex_toDigits]

/-- A character is written with an escape of its own, with one by its code point or as it is. -/
theorem escaped_cases (c : Char) :
    c ∈ ['\x00', '\t', '\r', '\n', '"', '\\'] ∨
      escaped c = '\\' :: 'u' :: '\x7b' :: (Nat.toDigits 16 c.toNat ++ ['\x7d']) ∨
      c ∉ ['\x00', '\t', '\r', '\n', '"', '\\'] ∧ escaped c = [c] := by
  by_cases hc : c ∈ ['\x00', '\t', '\r', '\n', '"', '\\']
  · exact .inl hc
  · right
    rw [escaped, escapeLetter?_eq_none hc]
    dsimp only
    split
    · exact .inl rfl
    · exact .inr ⟨hc, rfl⟩

/-- What is written for a character is read as that character. -/
theorem readEscaped?_escaped (c : Char) (rest : List Char) :
    readEscaped? (escaped c ++ rest) = some (c, rest) := by
  rcases escaped_cases c with hc | hcode | ⟨hc, hplain⟩
  · simp only [List.mem_cons, List.not_mem_nil, or_false] at hc
    rcases hc with rfl | rfl | rfl | rfl | rfl | rfl <;> rfl
  · rw [hcode, List.cons_append, List.cons_append, List.cons_append, List.append_assoc]
    exact readEscaped?_hex c rest
  · rw [hplain, List.singleton_append, readEscaped?.eq_def]
    split <;> simp_all

theorem escaped_ne_nil (c : Char) : escaped c ≠ [] := by
  intro h
  have hread := readEscaped?_escaped c []
  rw [h] at hread
  cases hread

theorem flatMap_escaped_injective {cs ds : List Char}
    (h : cs.flatMap escaped = ds.flatMap escaped) : cs = ds := by
  induction cs generalizing ds with
  | nil =>
    cases ds with
    | nil => rfl
    | cons d ds => exact absurd (List.append_eq_nil_iff.1 h.symm).1 (escaped_ne_nil d)
  | cons c cs ih =>
    cases ds with
    | nil => exact absurd (List.append_eq_nil_iff.1 h).1 (escaped_ne_nil c)
    | cons d ds =>
      have hread := congrArg readEscaped? h
      rw [List.flatMap_cons, List.flatMap_cons, readEscaped?_escaped, readEscaped?_escaped,
        Option.some.injEq, Prod.mk.injEq] at hread
      rw [hread.1, ih hread.2]

theorem quotedChars_injective {cs ds : List Char} (h : quotedChars cs = quotedChars ds) :
    cs = ds :=
  flatMap_escaped_injective (List.append_cancel_right (List.cons.inj h).2)

/-! ## Nothing to split at -/

theorem fitsField_escaped (c : Char) : FitsField (escaped c) := by
  rcases escaped_cases c with hc | hcode | ⟨hc, hplain⟩
  · simp only [List.mem_cons, List.not_mem_nil, or_false] at hc
    rcases hc with rfl | rfl | rfl | rfl | rfl | rfl <;> decide
  · have hdigits : FitsField (Nat.toDigits 16 c.toNat) := by
      intro d hd
      obtain ⟨k, hk, rfl⟩ := exists_digitChar_of_mem_toDigits hd
      exact (by decide : ∀ k < 16, Nat.digitChar k ≠ '\n' ∧ Nat.digitChar k ≠ '\t') k hk
    have hmarks : FitsField ['\\', 'u', '\x7b'] := by decide
    rw [hcode]
    exact hmarks.append (hdigits.append (by decide))
  · simp only [List.mem_cons, not_or] at hc
    rw [hplain]
    exact .cons ⟨hc.2.2.2.1, hc.2.1⟩ (List.forall_mem_nil _)

theorem fitsField_quotedChars (cs : List Char) : FitsField (quotedChars cs) := by
  refine .cons (by decide) (.append (fun c hc ↦ ?_) (by decide))
  obtain ⟨d, -, hd⟩ := List.mem_flatMap.1 hc
  exact fitsField_escaped d c hd

theorem fitsField_digits (n : ℕ) : FitsField (digits n) := by
  intro c hc
  have hdigit := isDigit_of_mem_digits hc
  constructor <;>
    · rintro rfl
      cases hdigit

theorem digits_injective {m n : ℕ} (h : digits m = digits n) : m = n := by
  have hends : Json.Ends [] := nofun
  exact (Json.digits_cancel hends hends (congrArg (· ++ []) h)).1

end Text

/-! ## Lines -/

theorem TokenKind.text_injective {k k' : TokenKind} (h : k.text = k'.text) : k = k' := by
  revert h
  cases k <;> cases k' <;> decide

namespace Token

open Text

/-- The place of a token in a listing. -/
def listingPlace (t : Token) : List Char :=
  digits t.position.line ++ ':' :: digits t.position.column

def fields (t : Token) : List (List Char) :=
  [t.listingPlace, t.kind.text.toList, quotedChars t.text.toList]

/-- What a listing tells of a token. -/
def entry (t : Token) : ℕ × ℕ × TokenKind × String :=
  (t.position.line, t.position.column, t.kind, t.text)

variable {t u : Token}

theorem toList_listingLine (t : Token) : t.listingLine.toList = ['\t'].intercalate t.fields := by
  simp [listingLine, fields, listingPlace, quoted, digits, List.intercalate_cons_cons]

theorem fitsField_of_mem_fields : ∀ cs ∈ t.fields, FitsField cs := by
  have hplace : FitsField t.listingPlace :=
    (fitsField_digits _).append (.cons (by decide) (fitsField_digits _))
  have hkind : FitsField t.kind.text.toList := by cases t.kind <;> decide
  simp only [fields, List.forall_mem_cons]
  exact ⟨hplace, hkind, fitsField_quotedChars _, List.forall_mem_nil _⟩

/-- The fields of a line are got back by splitting it at tabs. -/
theorem splitOn_listingLine (t : Token) : t.listingLine.toList.splitOn '\t' = t.fields := by
  rw [toList_listingLine]
  exact List.splitOn_intercalate '\t'
    (fun cs hcs hmem ↦ (fitsField_of_mem_fields cs hcs _ hmem).2 rfl) (List.cons_ne_nil _ _)

theorem listingPlace_injective (h : t.listingPlace = u.listingPlace) :
    t.position.line = u.position.line ∧ t.position.column = u.position.column := by
  have hcolon (n : ℕ) : ':' ∉ digits n :=
    fun hmem ↦ absurd (isDigit_of_mem_digits hmem) (by decide)
  obtain ⟨hline, -, hcolumn⟩ := (List.append_cons_inj_of_notMem (hcolon _) (hcolon _)).1 h
  exact ⟨digits_injective hline, digits_injective hcolumn⟩

/-! ## What a line tells -/

/-- A line tells of its token just as much as there is to tell. -/
theorem listingLine_eq_iff : t.listingLine = u.listingLine ↔ t.entry = u.entry := by
  constructor
  · intro h
    have hfields : t.fields = u.fields := by
      rw [← splitOn_listingLine, ← splitOn_listingLine, h]
    obtain ⟨hplace, hrest⟩ := List.cons.inj hfields
    obtain ⟨hkind, hrest⟩ := List.cons.inj hrest
    obtain ⟨hline, hcolumn⟩ := listingPlace_injective hplace
    have htext := quotedChars_injective (List.cons.inj hrest).1
    rw [entry, hline, hcolumn, TokenKind.text_injective (String.toList_injective hkind),
      String.toList_injective htext, entry]
  · intro h
    simp only [entry, Prod.mk.injEq] at h
    obtain ⟨hline, hcolumn, hkind, htext⟩ := h
    rw [listingLine, listingLine, hline, hcolumn, hkind, htext]

/-- A line has two tabs and no line feed. -/
theorem count_listingLine (t : Token) :
    t.listingLine.toList.count '\t' = 2 ∧ '\n' ∉ t.listingLine.toList := by
  have hcount (cs : List Char) (h : cs ∈ t.fields) : cs.count '\t' = 0 ∧ '\n' ∉ cs :=
    ⟨List.count_eq_zero.2 fun hmem ↦ (fitsField_of_mem_fields cs h _ hmem).2 rfl,
      fun hmem ↦ (fitsField_of_mem_fields cs h _ hmem).1 rfl⟩
  have hplace := hcount t.listingPlace (by simp [fields])
  have hkind := hcount t.kind.text.toList (by simp [fields])
  have htext := hcount (quotedChars t.text.toList) (by simp [fields])
  rw [toList_listingLine, fields]
  simp [List.intercalate_cons_cons, hplace, hkind, htext]

/-! ## Listings -/

/-- The lines are got back by splitting a listing at line feeds. -/
theorem splitOn_listing {ts : List Token} (h : ts ≠ []) :
    (listing ts).toList.splitOn '\n' = (ts.map listingLine).map String.toList := by
  rw [listing, String.toList_intercalate]
  refine List.splitOn_intercalate '\n' ?_ (by simpa using h)
  simp only [List.forall_mem_map]
  exact fun t _ ↦ t.count_listingLine.2

theorem listing_ne_empty {ts : List Token} (h : ts ≠ []) : listing ts ≠ "" := by
  intro hempty
  have hlines := splitOn_listing h
  rw [hempty] at hlines
  -- the only line of an empty text has no tab in it
  obtain ⟨t, us, rfl⟩ := List.exists_cons_of_ne_nil h
  have hline : [] = t.listingLine.toList := (List.cons.inj hlines).1
  have hcount := t.count_listingLine.1
  rw [← hline] at hcount
  cases hcount

theorem listing_eq_iff {ts us : List Token} :
    listing ts = listing us ↔ ts.map listingLine = us.map listingLine := by
  refine ⟨fun h ↦ ?_, congrArg ("\n".intercalate ·)⟩
  by_cases hts : ts = []
  · subst hts
    by_contra hne
    exact listing_ne_empty (fun hus ↦ hne (by rw [hus])) h.symm
  · by_cases hus : us = []
    · subst hus
      exact absurd h (listing_ne_empty hts)
    · have hlines := splitOn_listing hts
      rw [h, splitOn_listing hus] at hlines
      exact (List.map_injective_iff.2 (fun _ _ ↦ String.toList_injective) hlines).symm

/-- A listing has one line for each token, with two tabs, and nothing that is written of the tokens
is lost in it. -/
theorem listing_lossless (ts : List Token) :
    (ts ≠ [] → (listing ts).toList.splitOn '\n' = (ts.map listingLine).map String.toList) ∧
      (∀ t ∈ ts, t.listingLine.toList.count '\t' = 2) ∧
      ∀ us, listing ts = listing us ↔ ts.map entry = us.map entry := by
  refine ⟨splitOn_listing, fun t _ ↦ t.count_listingLine.1, fun us ↦ ?_⟩
  have hmap {α : Type} (f : Token → α) :
      ts.map f = us.map f ↔ List.Forall₂ (fun t u ↦ f t = f u) ts us := by
    rw [← List.forall₂_eq_eq_eq, List.forall₂_map_left_iff, List.forall₂_map_right_iff]
  rw [listing_eq_iff, hmap, hmap]
  simp only [listingLine_eq_iff]

theorem listing_lossless_of_lookalikes :
    let p := Position.start
    let ts : List Token := [⟨.string, "a\"\n1:1\tstring\t\"b", p⟩]
    let us : List Token := [⟨.string, "a", p⟩, ⟨.string, "b", p⟩]
    let vs : List Token := [⟨.string, "a\\\"\\n1:1\\tstring\\t\\\"b", p⟩]
    ts ≠ [] ∧ (listing ts).toList.splitOn '\n' = (ts.map listingLine).map String.toList ∧
      listing ts ≠ listing us ∧ listing ts ≠ listing vs := by
  intro p ts us vs
  have hts : ts ≠ [] := List.cons_ne_nil _ _
  exact ⟨hts, (listing_lossless ts).1 hts,
    fun h ↦ absurd (((listing_lossless ts).2.2 us).1 h) (by decide),
    fun h ↦ absurd (((listing_lossless ts).2.2 vs).1 h) (by decide)⟩

end Token

end TemplateExpr
