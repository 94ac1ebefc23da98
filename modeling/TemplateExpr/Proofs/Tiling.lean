import TemplateExpr.Proofs.LongestMatch

/-!
# Tokens tile their text

A text that can be cut into tokens is blanks and lexemes by turns, one lexeme for each token but the
last, which is the end token (`Source.tokens_tile`). Nothing of the text is lost, each lexeme spells
its token, and no longer name, number or symbol begins where a lexeme begins.

## Places

The place of a token is determined by the characters before it (`Position.following`): reading moves
a place over one character at a time, whatever the lexeme is that the character belongs to, so the
place after some characters is the sum of their steps.

## Tiles

A tile is a token with the characters that it takes up, and its fit depends on all that comes after
it, since a longer match would reach into that (`Tile.Fits`). A text is tiled from the front: the
first token makes a tile before what is left, and what is left is tiled for itself.
-/

namespace TemplateExpr

open Text

namespace Position

/-- The place after these characters at the beginning of a text. Line feeds and bytes are counted
over all of them, and the column over those after the last line feed. -/
def following (cs : List Char) : Position :=
  ⟨1 + cs.count '\n', 1 + (cs.reverse.takeWhile (· ≠ '\n')).length,
    (String.ofList cs).utf8ByteSize⟩

theorem following_append_singleton (cs : List Char) (c : Char) :
    following (cs ++ [c]) = (following cs).next c := by
  have hbytes : (String.ofList (cs ++ [c])).utf8ByteSize =
      (String.ofList cs).utf8ByteSize + c.utf8Size := by
    rw [String.ofList_append, String.utf8ByteSize_append]
    simp
  rw [following, following, next, hbytes, List.count_append, List.reverse_append]
  by_cases hc : c = '\n'
  · subst hc
    simp [Nat.add_assoc]
  · simp [hc, Nat.add_comm]

theorem after_start (cs : List Char) : start.after cs = following cs := by
  induction cs using List.reverseRecOn with
  | nil => rfl
  | append_singleton cs c ih =>
    rw [after_append, ih, following_append_singleton, after_cons, after_nil]

end Position

/-! ## Tiles -/

/-- A token with the characters that it takes up in its text. -/
structure Tile where
  /-- The blanks before the lexeme. -/
  blanks : List Char
  /-- The lexeme. -/
  lexeme : List Char
  /-- The token. -/
  token : Token

namespace Tile

def chars (t : Tile) : List Char := t.blanks ++ t.lexeme

/-- A tile fits between the characters before it and those after it. -/
structure Fits (t : Tile) (front back : List Char) : Prop where
  /-- Only blanks stand before the lexeme. -/
  blank : ∀ c ∈ t.blanks, isBlank c = true
  /-- The lexeme spells the token, which is therefore no end token. -/
  spelled : t.token.terminal.SpelledAs t.lexeme
  /-- The token is where its lexeme begins. -/
  position : t.token.position = Position.following (front ++ t.blanks)
  /-- No longer name, number or symbol begins there. -/
  longest : ∀ w, Lexeme.IsWord w → w <+: t.lexeme ++ back → w.length ≤ t.lexeme.length

/-- Each of some tiles fits between those before it and those after it. -/
def FitAll (front : List Char) (tiles : List Tile) (back : List Char) : Prop :=
  ∀ before tile after, tiles = before ++ tile :: after →
    tile.Fits (front ++ before.flatMap chars) (after.flatMap chars ++ back)

variable {t : Tile} {tiles : List Tile} {front back : List Char}

/-! ## Tiles in a row -/

theorem fitAll_nil : FitAll front [] back := by
  intro before tile after h
  cases before <;> cases h

theorem fitAll_cons (h : t.Fits front (tiles.flatMap chars ++ back))
    (htiles : FitAll (front ++ t.chars) tiles back) : FitAll front (t :: tiles) back := by
  intro before tile after heq
  cases before with
  | nil =>
    obtain ⟨rfl, rfl⟩ := List.cons.inj heq
    rwa [List.flatMap_nil, List.append_nil]
  | cons u before =>
    obtain ⟨rfl, htail⟩ := List.cons.inj heq
    have hfits := htiles before tile after htail
    rwa [List.append_assoc, ← List.flatMap_cons] at hfits

end Tile

/-! ## Sources -/

namespace Source

theorem position_skipBlanks {s : Source} {front : List Char}
    (h : s.position = Position.following front) :
    s.skipBlanks.position = Position.following (front ++ s.rest.takeWhile isBlank) := by
  rw [skipBlanks, h, ← Position.after_start, ← Position.after_start, Position.after_append]

/-! ## One tile -/

/-- The first token of a source makes a tile that fits before what is left. -/
theorem tile_of_next {s : Source} {t : Token} {front : List Char} (h : s.next.1 = .ok t)
    (ht : t.isEof = false) (hs : s.position = Position.following front) :
    ∃ tile : Tile, tile.token = t ∧ s.rest = tile.chars ++ s.next.2.rest ∧
      s.next.2.position = Position.following (front ++ tile.chars) ∧
      tile.Fits front s.next.2.rest := by
  have hkind : t.kind ≠ .eof := by simpa [Token.isEof] using ht
  obtain ⟨text, lexeme, hcut, htoken, hplace⟩ := cut_of_piece h
  have hplace' := position_skipBlanks hs
  have hchars : lexeme ++ s.next.2.rest = s.skipBlanks.rest := by
    have hcut' := Lexeme.chars_cut s.skipBlanks.rest
    rwa [hcut] at hcut'
  let tile : Tile := ⟨s.rest.takeWhile isBlank, lexeme, t⟩
  refine ⟨tile, rfl, ?_, ?_, ?_⟩
  · rw [Tile.chars, List.append_assoc, hchars]
    exact List.takeWhile_append_dropWhile.symm
  · rw [next, hplace, hplace', ← Position.after_start, ← Position.after_start,
      ← Position.after_append, List.append_assoc]
    rfl
  · refine ⟨fun c hc ↦ List.mem_takeWhile_imp hc, ?_, ?_, fun w hw hfront ↦ ?_⟩
    · have hspelled := Lexeme.spelledAs_of_cut hcut hkind
      have hterminal : t.terminal = ⟨t.kind, String.ofList text⟩ := by
        rw [Token.terminal, congrArg Token.text htoken]
      rwa [← hterminal] at hspelled
    · exact (congrArg Token.position htoken).trans hplace'
    · rw [hchars] at hfront
      exact Lexeme.length_le_of_cut hcut hkind hw hfront

/-- What is left of a text is tiled, if it can be cut. -/
theorem tiles_of_scan {s : Source} {ts : List Token} {front : List Char}
    (h : s.scan = (ts, none)) (hs : s.position = Position.following front) :
    ∃ (tiles : List Tile) (last : List Char), s.rest = tiles.flatMap Tile.chars ++ last ∧
      ts = tiles.map Tile.token ++ [Token.eof (Position.following (front ++ s.rest))] ∧
      (∀ c ∈ last, isBlank c = true) ∧ Tile.FitAll front tiles last := by
  fun_induction scan s generalizing ts front with
  | case1 => cases h
  | case2 s t ht heof =>
    cases h
    obtain ⟨hnil, rfl⟩ := eq_eof_of_piece ht heof
    -- nothing but blanks is left, and the end token stands after them
    have hrest : s.rest.takeWhile isBlank = s.rest := by
      have hsplit := List.takeWhile_append_dropWhile (p := isBlank) (l := s.rest)
      rwa [show s.rest.dropWhile isBlank = [] from hnil, List.append_nil] at hsplit
    refine ⟨[], s.rest, rfl, ?_, ?_, Tile.fitAll_nil⟩
    · rw [position_skipBlanks hs, hrest]
      rfl
    · exact List.takeWhile_eq_self_iff.1 hrest
  | case3 s t ht heof _ ts error hscan ih =>
    cases h
    obtain ⟨tile, rfl, hrest, hplace, hfits⟩ := tile_of_next ht (by simpa using heof) hs
    obtain ⟨tiles, last, hrest', rfl, hlast, htiles⟩ := ih hscan hplace
    refine ⟨tile :: tiles, last, ?_, ?_, hlast, Tile.fitAll_cons (hrest' ▸ hfits) htiles⟩
    · rw [hrest, hrest', List.flatMap_cons, List.append_assoc]
    · rw [hrest, List.append_assoc]
      rfl

/-! ## Whole texts -/

/-- A text that is cut into tokens is tiled by them: it is blanks and lexemes by turns, with one
lexeme for each token but the end token, which stands behind the last character. -/
theorem tokens_tile {s : String} {ts : List Token} (h : (ofString s).tokens = .ok ts) :
    ∃ (tiles : List Tile) (last : List Char), s.toList = tiles.flatMap Tile.chars ++ last ∧
      ts = tiles.map Tile.token ++ [Token.eof (Position.following s.toList)] ∧
      (Position.following s.toList).offset = s.utf8ByteSize ∧
      (∀ c ∈ last, isBlank c = true) ∧ Tile.FitAll [] tiles last := by
  rw [tokens] at h
  split at h
  · next hscan =>
    cases h
    have hplace : (ofString s).position = Position.following [] := rfl
    obtain ⟨tiles, last, hrest, hts, hlast, htiles⟩ := tiles_of_scan hscan hplace
    refine ⟨tiles, last, hrest, hts, ?_, hlast, htiles⟩
    exact congrArg String.utf8ByteSize String.ofList_toList
  · cases h

theorem tokens_tile_of_lines :
    let s := "a1\n <='é\n\\t'2e5 "
    let ts : List Token := [⟨.identifier, "a1", ⟨1, 1, 0⟩⟩, ⟨.symbol, "<=", ⟨2, 2, 4⟩⟩,
      ⟨.string, "é\n\t", ⟨2, 4, 6⟩⟩, ⟨.number, "2e5", ⟨3, 4, 13⟩⟩, ⟨.eof, "", ⟨3, 8, 17⟩⟩]
    (ofString s).tokens = .ok ts ∧ ∃ (tiles : List Tile) (last : List Char),
      s.toList = tiles.flatMap Tile.chars ++ last ∧
      ts = tiles.map Tile.token ++ [Token.eof (Position.following s.toList)] ∧
      (Position.following s.toList).offset = s.utf8ByteSize ∧
      (∀ c ∈ last, isBlank c = true) ∧ Tile.FitAll [] tiles last := by
  intro s ts
  have h : (ofString s).tokens = .ok ts := by decide +kernel
  exact ⟨h, tokens_tile h⟩

end Source

end TemplateExpr
