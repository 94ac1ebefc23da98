import TemplateExpr.Proofs.Respacing
import TemplateExpr.Proofs.Resuming
import TemplateExpr.Proofs.Sources
import TemplateExpr.Proofs.Translating

/-!
# Tokens without their end token

A list of tokens without an end token gets one, just past its last token. If the tokens of a text
are stripped of their end token, and the text does not end with a blank, then the one that is added
again is the same exactly if the last token is no string (`Cursor.stopOf_dropLast_eq_iff`). Only
then is the same stream read.

## How far a token reaches

Where the end token is put is told by the text of the last token, so what matters is whether the
text is what the token takes up in its source. That is so for names, numbers and symbols, which
moreover stay on their line, so that the characters of the text may be added to the column. The text
of a string lacks the quotes at least. An escape makes it shorter still, and never longer
(`Lexeme.Unquotes.utf8ByteSize_le`), so the end token always comes too early after a string; the
offsets alone show it, whatever the lines are.

## What the last lexeme is

A text is a row of lexemes with blanks between them. The last one takes up the end of the text if
that is no blank (`Source.exists_last_lexeme`), so the place after the lexeme is the place of the
end token that the text itself has.
-/

namespace TemplateExpr

open Text

/-! ## Places on one line -/

theorem utf8ByteSize_ofList_cons (c : Char) (cs : List Char) :
    (String.ofList (c :: cs)).utf8ByteSize = c.utf8Size + (String.ofList cs).utf8ByteSize := by
  simp

namespace Position

theorem offset_after (p : Position) (cs : List Char) :
    (p.after cs).offset = p.offset + (String.ofList cs).utf8ByteSize := by
  induction cs generalizing p with
  | nil => rfl
  | cons c cs ih => rw [after_cons, ih, offset_next, utf8ByteSize_ofList_cons, Nat.add_assoc]

theorem after_of_not_mem (p : Position) {cs : List Char} (h : '\n' ∉ cs) :
    p.after cs =
      ⟨p.line, p.column + cs.length, p.offset + (String.ofList cs).utf8ByteSize⟩ := by
  induction cs generalizing p with
  | nil => rfl
  | cons c cs ih =>
    obtain ⟨hc, hcs⟩ := not_or.1 (mt List.mem_cons.2 h)
    rw [after_cons, ih _ hcs, next, if_neg (Ne.symm hc), utf8ByteSize_ofList_cons,
      List.length_cons, Nat.add_assoc, Nat.add_assoc, Nat.add_comm 1]

end Position

/-! ## The place just past a token -/

namespace Lexeme

theorem utf8Size_of_unescape? {e d : Char} (h : unescape? e = some d) : d.utf8Size = 1 := by
  rw [unescape?.eq_def] at h
  split at h <;> cases h <;> rfl

theorem Unquotes.utf8ByteSize_le {quote : Char} {body text : List Char}
    (h : Unquotes quote body text) :
    (String.ofList text).utf8ByteSize ≤ (String.ofList body).utf8ByteSize := by
  induction h with
  | nil => exact Nat.le_refl _
  | plain _ _ _ ih =>
    rw [utf8ByteSize_ofList_cons, utf8ByteSize_ofList_cons]
    exact Nat.add_le_add_left ih _
  | @escape e d body text hd _ ih =>
    have hbackslash : '\\'.utf8Size = 1 := rfl
    rw [utf8ByteSize_ofList_cons, utf8ByteSize_ofList_cons, utf8ByteSize_ofList_cons,
      utf8Size_of_unescape? hd, hbackslash]
    omega

end Lexeme

/-! ## Spellings -/

namespace Terminal

variable {t : Terminal} {lexeme : List Char}

theorem SpelledAs.kind_ne_eof (h : t.SpelledAs lexeme) : t.kind ≠ .eof := by
  intro hkind
  rwa [SpelledAs, hkind] at h

theorem SpelledAs.isWord (h : t.SpelledAs lexeme) (hkind : t.kind ≠ .string) :
    Lexeme.IsWord lexeme ∧ t.text.toList = lexeme := by
  obtain ⟨kind, text⟩ := t
  cases kind with
  | identifier => exact ⟨.inl h.1, h.2⟩
  | number => exact ⟨.inr (.inl h.1), h.2⟩
  | symbol => exact ⟨.inr (.inr ⟨text, h⟩), h.2⟩
  | string => exact absurd rfl hkind
  | eof => exact h.elim

end Terminal

namespace Cursor

variable {t : Token} {lexeme : List Char}

theorem justPast_of_spelledAs (h : t.terminal.SpelledAs lexeme) (hkind : t.kind ≠ .string) :
    justPast t = t.position.after lexeme := by
  obtain ⟨hword, rfl⟩ := h.isWord hkind
  have hline : '\n' ∉ t.terminal.text.toList :=
    fun hmem ↦ absurd (hword.blankFree _ hmem) (by decide)
  rw [Position.after_of_not_mem _ hline, String.ofList_toList, String.length_toList]
  rfl

theorem offset_justPast_add_two_le (h : t.terminal.SpelledAs lexeme) (hkind : t.kind = .string) :
    (justPast t).offset + 2 ≤ (t.position.after lexeme).offset := by
  have hkind' : t.terminal.kind = .string := hkind
  rw [Terminal.SpelledAs, hkind'] at h
  obtain ⟨quote, body, hquote, rfl, hbody⟩ := h
  have hsize : quote.utf8Size = 1 := by rcases hquote with rfl | rfl <;> rfl
  have hle := hbody.utf8ByteSize_le
  rw [String.ofList_toList] at hle
  have hbytes : (String.ofList (quote :: (body ++ [quote]))).utf8ByteSize =
      (String.ofList body).utf8ByteSize + 2 := by
    rw [utf8ByteSize_ofList_cons, String.ofList_append, String.utf8ByteSize_append,
      utf8ByteSize_ofList_cons, hsize]
    exact Nat.add_comm 1 _
  have hplace : (justPast t).offset = t.position.offset + t.terminal.text.utf8ByteSize := rfl
  rw [Position.offset_after, hbytes, hplace]
  omega

end Cursor

/-! ## The tokens of a text -/

namespace Source

/-- The last token of a text that does not end with a blank takes up the end of the text. -/
theorem exists_last_lexeme {s : String} {ts : List Token} {t : Token}
    (h : (ofString s).tokens = .ok ts) (ht : ts.dropLast.getLast? = some t)
    (hlast : s.toList.getLast?.any isBlank = false) :
    ∃ us lexeme, ts = us ++ [t] ++ [Token.eof (Position.following s.toList)] ∧
      (∀ u ∈ us ++ [t], u.isEof = false) ∧ t.terminal.SpelledAs lexeme ∧
      t.position.after lexeme = Position.following s.toList := by
  rw [tokens] at h
  split at h
  · next hscan =>
    cases h
    have hplace : (ofString s).position = Position.following [] := rfl
    obtain ⟨tiles, last, hrest, rfl, hblank, hfits⟩ := tiles_of_scan hscan hplace
    rw [List.dropLast_concat, List.getLast?_map, Option.map_eq_some_iff] at ht
    obtain ⟨tile, htile, rfl⟩ := ht
    obtain ⟨init, rfl⟩ := List.getLast?_eq_some_iff.1 htile
    have hrest' : s.toList = (init ++ [tile]).flatMap Tile.chars ++ last := hrest
    -- a blank after the last lexeme would be the end of the text
    have hnil : last = [] := by
      refine List.eq_nil_iff_forall_not_mem.2 fun c hc ↦ ?_
      have hne := List.ne_nil_of_mem hc
      have hend : s.toList.getLast? = some (last.getLast hne) := by
        rw [hrest', List.getLast?_append_of_ne_nil _ hne, List.getLast?_eq_some_getLast hne]
      rw [hend, Option.any_some, hblank _ (List.getLast_mem hne)] at hlast
      cases hlast
    subst hnil
    have hlastFits := hfits init tile [] rfl
    refine ⟨init.map Tile.token, tile.lexeme, ?_, ?_, hlastFits.spelled, ?_⟩
    · rw [List.map_append]
      rfl
    · rw [← List.map_singleton, ← List.map_append, List.forall_mem_map]
      intro u hu
      obtain ⟨before, after, hsplit⟩ := List.append_of_mem hu
      have hkind : u.token.kind ≠ .eof := (hfits before u after hsplit).spelled.kind_ne_eof
      simpa [Token.isEof] using hkind
    · rw [hlastFits.position, Position.after_following, hrest']
      simp [Tile.chars]
  · cases h

end Source

namespace Cursor

section

variable {us : List Token} (heof : ∀ u ∈ us, u.isEof = false)
include heof

/-! ## Streams that get an end token -/

theorem stopOf_of_getLast? {t : Token} (ht : us.getLast? = some t) :
    stopOf us = Token.eof (justPast t) := by
  have hnone : us.find? Token.isEof = none := List.find?_eq_none.2 fun u hu ↦ by simp [heof u hu]
  rw [stopOf, hnone, ht]
  rfl

theorem ofTokens_append_eof {p : Position} (h : stopOf us = Token.eof p) :
    ofTokens (us ++ [Token.eof p]) = ofTokens us := by
  apply eq_of_parts
  · rfl
  · rw [ahead_ofTokens_concat heof rfl, ahead_ofTokens_of_isEof heof]
  · exact (stopOf_append_eof heof).trans h.symm

end

/-! ## Stripping and adding -/

/-- Tokens of a text whose end token is taken away get the same one again exactly if the last of
them is no string, as long as the text does not end with a blank. Then they are read as the text is.
After a string, the end token comes too early. -/
theorem stopOf_dropLast_eq_iff {s : String} {ts : List Token} {t : Token}
    (h : (Source.ofString s).tokens = .ok ts) (ht : ts.dropLast.getLast? = some t)
    (hlast : s.toList.getLast?.any isBlank = false) :
    let stop := Token.eof (Position.following s.toList)
    ts.getLast? = some stop ∧ (stopOf ts.dropLast = stop ↔ t.kind ≠ .string) ∧
      (t.kind ≠ .string → ∀ {α : Type} (r : Reading α), r.onTokens ts.dropLast = r.onText s) ∧
      (t.kind = .string → (stopOf ts.dropLast).position.offset + 2 ≤ stop.position.offset) := by
  intro stop
  obtain ⟨us, lexeme, rfl, heof, hspelled, hplace⟩ := Source.exists_last_lexeme h ht hlast
  rw [List.dropLast_concat] at ht ⊢
  rw [stopOf_of_getLast? heof ht]
  have hsame (hkind : t.kind ≠ .string) : Token.eof (justPast t) = stop := by
    rw [justPast_of_spelledAs hspelled hkind, hplace]
  have hshort (hkind : t.kind = .string) :
      (Token.eof (justPast t)).position.offset + 2 ≤ stop.position.offset := by
    have hle := offset_justPast_add_two_le hspelled hkind
    rwa [hplace] at hle
  refine ⟨List.getLast?_concat, ⟨fun heq hkind ↦ ?_, hsame⟩, fun hkind α r ↦ ?_, hshort⟩
  · have hle := hshort hkind
    rw [heq] at hle
    omega
  · have hstop : stopOf (us ++ [t]) = stop := (stopOf_of_getLast? heof ht).trans (hsame hkind)
    rw [Reading.onText, h]
    exact congrArg (fun c ↦ (r.outcome c).1) (ofTokens_append_eof heof hstop).symm

/-- A text of two lines that ends with a name. -/
theorem stopOf_dropLast_of_name :
    let s := "'é\n\\t' + b1"
    let t : Token := ⟨.identifier, "b1", ⟨2, 7, 10⟩⟩
    let stop := Token.eof (Position.following s.toList)
    let ts : List Token :=
      [⟨.string, "é\n\t", Position.start⟩, ⟨.symbol, "+", ⟨2, 5, 8⟩⟩, t, stop]
    (Source.ofString s).tokens = .ok ts ∧ ts.dropLast.getLast? = some t ∧
      s.toList.getLast?.any isBlank = false ∧
      ts.getLast? = some stop ∧ (stopOf ts.dropLast = stop ↔ t.kind ≠ .string) ∧
      (t.kind ≠ .string → ∀ {α : Type} (r : Reading α), r.onTokens ts.dropLast = r.onText s) ∧
      (t.kind = .string → (stopOf ts.dropLast).position.offset + 2 ≤ stop.position.offset) := by
  intro s t stop ts
  have h : (Source.ofString s).tokens = .ok ts := by decide +kernel
  have ht : ts.dropLast.getLast? = some t := rfl
  have hlast : s.toList.getLast?.any isBlank = false := by decide
  exact ⟨h, ht, hlast, stopOf_dropLast_eq_iff h ht hlast⟩

/-- The end token of a quoted letter is not the one that its token alone gets. -/
theorem not_stopOf_dropLast_eq_of_string :
    ¬ ∀ (s : String) (ts : List Token) (t : Token), (Source.ofString s).tokens = .ok ts →
      ts.dropLast.getLast? = some t → s.toList.getLast?.any isBlank = false →
      some (stopOf ts.dropLast) = ts.getLast? := by
  intro hall
  have h : (Source.ofString "\"a\"").tokens =
      .ok [⟨.string, "a", Position.start⟩, Token.eof ⟨1, 4, 3⟩] := by decide +kernel
  have hadded := hall _ _ _ h rfl (by decide)
  revert hadded
  decide

end Cursor

end TemplateExpr
