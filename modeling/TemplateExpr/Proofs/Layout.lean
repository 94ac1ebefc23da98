import TemplateExpr.Proofs.Respacing
import TemplateExpr.Proofs.Sources
import TemplateExpr.Proofs.Translating

/-!
# Layout does not matter

A text with other blanks between its lexemes and around them has the same tokens but for their
places, and it is read as the same tree or refused for the same reason at the same token
(`Respaced.same`). The lexemes are the same because no lexeme depends on what comes after a blank,
and the rest is that reading is the same wherever the tokens stand.

## Forgetting places

If the places of its tokens are forgotten, a stream is its terminals and nothing else. That is a
translation of streams like any other (`Translation.placeless`), and no reading takes notice of it.
The two streams of a text and of the same text laid out differently are one without their places, so
both readings are compared with the reading of that stream and not with each other.

## Outcomes

Errors point to tokens, and the tokens do differ. What the two outcomes have in common is the reason
and the index of the token in its stream (`SameOutcome`). Since the place where a reading stops
holds the token of its error, the index is where the cursor is left.
-/

namespace TemplateExpr

open Text

/-! ## Other blanks -/

/-- A text with other blanks around it and between its lexemes. Where there have been blanks between
two lexemes, some have to be left. -/
structure Respaced (s s' : String) : Prop where
  /-- Any blanks may begin either text, and what comes after them is changed in between. -/
  relaid : ∃ blanks gap cs cs', s.toList = blanks ++ cs ∧ s'.toList = gap ++ cs' ∧
    (∀ c ∈ blanks, isBlank c = true) ∧ (∀ c ∈ gap, isBlank c = true) ∧ Relaid cs cs'

/-- Two readings come to the same tree, or they fail for the same reason at the tokens of the same
index. -/
inductive SameOutcome {α : Type} (ts ts' : List Token) :
    Except ParseError α → Except ParseError α → Prop where
  /-- Both have come to a tree. -/
  | ok (a : α) : SameOutcome ts ts' (.ok a) (.ok a)
  /-- Both have failed. -/
  | error (why : Reason) {i : Nat} {t t' : Token} (h : ts[i]? = some t) (h' : ts'[i]? = some t') :
      SameOutcome ts ts' (.error (why.error t)) (.error (why.error t'))

/-! ## Streams without places -/

def Translation.placeless : Translation :=
  .replacing (fun t ↦ t.terminal.token) (fun _ ↦ rfl) [] nofun

theorem Translation.offset_placeless (c : Cursor) : (placeless.cursor c).offset = c.offset :=
  (congrArg List.length (List.append_nil _)).trans (List.length_map _)

theorem ParseError.exists_reason {e e' : ParseError} {t t' : Token} {f : Token → Token}
    (ht : e.token? = some t) (ht' : e'.token? = some t') (h : e.mapToken f = e'.mapToken f) :
    ∃ why : Reason, e = why.error t ∧ e' = why.error t' := by
  cases e with
  | unexpectedToken u =>
    cases e' with
    | unexpectedToken u' =>
      cases ht
      cases ht'
      exact ⟨.unexpected, rfl, rfl⟩
    | _ => cases h
  | expectedToken lexeme u =>
    cases e' with
    | expectedToken lexeme' u' =>
      obtain ⟨rfl, -⟩ := ParseError.expectedToken.inj h
      cases ht
      cases ht'
      exact ⟨.expected lexeme, rfl, rfl⟩
    | _ => cases h
  | nestingTooDeep u =>
    cases e' with
    | nestingTooDeep u' =>
      cases ht
      cases ht'
      exact ⟨.tooDeep none, rfl, rfl⟩
    | _ => cases h
  | lex => cases ht

namespace Reading

variable {α : Type}

/-! ## Outcomes -/

/-- The place at which a reading stops holds the token of its error, if it fails. -/
theorem Translates.getElem?_of_outcome {φ : Translation} {c : Cursor} {x x' : Reading α}
    (h : Translates φ c x x') {e : ParseError} (he : (x.outcome c).1 = .error e) :
    ∃ t, e.token? = some t ∧ c.stream[(x.outcome c).2.offset]? = some t := by
  refine ⟨_, h.token_of_outcome he, ?_⟩
  rw [← h.moves.1]
  exact Cursor.getElem?_offset_stream _

/-- A reading has the same outcome on streams that differ in nothing but places. -/
theorem sameOutcome_of_translates {x : Reading α} (hx : ∀ c, Translates .placeless c x x)
    {c c' : Cursor} (h : Translation.placeless.cursor c = Translation.placeless.cursor c') :
    SameOutcome c.stream c'.stream (x.outcome c).1 (x.outcome c').1 := by
  have heq := (hx c).outcome_eq.symm.trans
    ((congrArg x.outcome h).trans (hx c').outcome_eq)
  obtain ⟨hresult, hcursor⟩ := Prod.mk.inj heq
  have hoffset : (x.outcome c).2.offset = (x.outcome c').2.offset := by
    rw [← Translation.offset_placeless, hcursor, Translation.offset_placeless]
  cases hr : (x.outcome c).1 with
  | ok a =>
    cases hr' : (x.outcome c').1 with
    | ok a' =>
      rw [hr, hr'] at hresult
      cases hresult
      exact .ok a
    | error e' =>
      rw [hr, hr'] at hresult
      cases hresult
  | error e =>
    cases hr' : (x.outcome c').1 with
    | ok a' =>
      rw [hr, hr'] at hresult
      cases hresult
    | error e' =>
      rw [hr, hr'] at hresult
      obtain ⟨t, ht, hindex⟩ := (hx c).getElem?_of_outcome hr
      obtain ⟨t', ht', hindex'⟩ := (hx c').getElem?_of_outcome hr'
      obtain ⟨why, rfl, rfl⟩ := ParseError.exists_reason ht ht' (Except.error.inj hresult)
      rw [← hoffset] at hindex'
      exact .error why hindex hindex'

end Reading

/-! ## Streams with the same terminals -/

section Stream

variable {us us' : List Token} {p p' : Position}

theorem stream_ofTokens_append_eof (h : ∀ t ∈ us, t.isEof = false) :
    (Cursor.ofTokens (us ++ [Token.eof p])).stream = us ++ [Token.eof p] :=
  congrArg₂ (fun ts t ↦ ts ++ [t]) (ahead_ofTokens_concat h rfl) (stopOf_append_eof h)

theorem placeless_of_terminals (h : ∀ t ∈ us, t.isEof = false) (h' : ∀ t ∈ us', t.isEof = false)
    (heq : us'.map Token.terminal = us.map Token.terminal) :
    Translation.placeless.cursor (Cursor.ofTokens (us ++ [Token.eof p])) =
      Translation.placeless.cursor (Cursor.ofTokens (us' ++ [Token.eof p'])) := by
  have hahead : ∀ {us : List Token} {p : Position}, (∀ t ∈ us, t.isEof = false) →
      (Translation.placeless.cursor (Cursor.ofTokens (us ++ [Token.eof p]))).ahead =
        (us.map Token.terminal).map Terminal.token := by
    intro us p h
    rw [List.map_map]
    exact congrArg (List.map _) (ahead_ofTokens_concat h rfl)
  have hstop : ∀ {us : List Token} {p : Position}, (∀ t ∈ us, t.isEof = false) →
      (Translation.placeless.cursor (Cursor.ofTokens (us ++ [Token.eof p]))).stop =
        Token.eof Position.start :=
    fun h ↦ congrArg (fun t ↦ t.terminal.token) (stopOf_append_eof h)
  apply Cursor.eq_of_parts
  · rfl
  · rw [hahead h, hahead h', heq]
  · rw [hstop h, hstop h']

end Stream

namespace Respaced

variable {s s' : String}

/-! ## Texts -/

theorem exists_lexes (h : Respaced s s') : ∃ ts, Lexes s.toList ts ∧ Lexes s'.toList ts := by
  obtain ⟨blanks, gap, cs, cs', hs, hs', hblanks, hgap, hrelaid⟩ := h.relaid
  obtain ⟨ts, hlexes, hlexes'⟩ := hrelaid.exists_lexes
  rw [hs, hs']
  exact ⟨ts, hlexes.blanks_append (List.dropWhile_eq_nil_iff.2 hblanks),
    hlexes'.blanks_append (List.dropWhile_eq_nil_iff.2 hgap)⟩

/-- A text with other blanks has the same tokens but for their places, and it is read as the same
tree or refused for the same reason at the same token. -/
theorem same {ts : List Token} (h : Respaced s s') (hts : (Source.ofString s).tokens = .ok ts) :
    ∃ ts', (Source.ofString s').tokens = .ok ts' ∧
      ts'.map Token.terminal = ts.map Token.terminal ∧
      SameOutcome ts ts' (Expr.ofString s) (Expr.ofString s') ∧
      SameOutcome ts ts' (Expr.listOfString s) (Expr.listOfString s') := by
  obtain ⟨vs, hlexes, hlexes'⟩ := h.exists_lexes
  obtain ⟨us, p, htokens, hus⟩ := Expr.tokens_of_lexes hlexes
  obtain ⟨us', p', htokens', hus'⟩ := Expr.tokens_of_lexes hlexes'
  obtain rfl : ts = us ++ [Token.eof p] := Except.ok.inj (hts.symm.trans htokens)
  have heof := isEof_of_lexes (hus.symm ▸ hlexes)
  have heof' := isEof_of_lexes (hus'.symm ▸ hlexes')
  have heq : us'.map Token.terminal = us.map Token.terminal := hus'.trans hus.symm
  have hsame : ∀ {α : Type} {x : Reading α}, (∀ c, Reading.Translates .placeless c x x) →
      SameOutcome (us ++ [Token.eof p]) (us' ++ [Token.eof p']) (x.onText s) (x.onText s') := by
    intro α x hx
    have hplaceless : Translation.placeless.cursor (Cursor.ofTokens (us ++ [Token.eof p])) =
        Translation.placeless.cursor (Cursor.ofTokens (us' ++ [Token.eof p'])) :=
      placeless_of_terminals heof heof' heq
    have houtcome := Reading.sameOutcome_of_translates hx hplaceless
    rw [stream_ofTokens_append_eof heof, stream_ofTokens_append_eof heof'] at houtcome
    rwa [Reading.onText, htokens, Reading.onText, htokens']
  refine ⟨_, htokens', ?_, hsame fun c ↦ ?_, hsame fun c ↦ ?_⟩
  · rw [List.map_append, List.map_append, heq]
    rfl
  · exact (Reading.translates_expression _ c).toEnd
  · exact (Reading.translates_list _ c).toEnd

theorem same_of_lines :
    let s := "x  +(y z"
    let s' := "\u2003x\n+ (y\t\u3000z "
    let ts : List Token := [⟨.identifier, "x", ⟨1, 1, 0⟩⟩, ⟨.symbol, "+", ⟨1, 4, 3⟩⟩,
      ⟨.symbol, "(", ⟨1, 5, 4⟩⟩, ⟨.identifier, "y", ⟨1, 6, 5⟩⟩, ⟨.identifier, "z", ⟨1, 8, 7⟩⟩,
      ⟨.eof, "", ⟨1, 9, 8⟩⟩]
    Respaced s s' ∧ (Source.ofString s).tokens = .ok ts ∧
      ∃ ts', (Source.ofString s').tokens = .ok ts' ∧
        ts'.map Token.terminal = ts.map Token.terminal ∧
        SameOutcome ts ts' (Expr.ofString s) (Expr.ofString s') ∧
        SameOutcome ts ts' (Expr.listOfString s) (Expr.listOfString s') := by
  intro s s' ts
  have hz : Relaid [' ', 'z'] ['\t', '\u3000', 'z', ' '] :=
    @Relaid.piece [' '] ['\t', '\u3000'] _ ['z'] [] [' '] _ (Lexeme.cut_name rfl) nofun
      (List.all_eq_true.1 rfl) (List.all_eq_true.1 rfl) nofun
      (.blank (List.forall_mem_nil _) (List.all_eq_true.1 rfl))
  have hy : Relaid ['y', ' ', 'z'] ['y', '\t', '\u3000', 'z', ' '] :=
    @Relaid.piece [] [] ['y'] ['y'] _ _ .identifier rfl nofun (List.forall_mem_nil _)
      (List.forall_mem_nil _) (absurd rfl) hz
  have hparenthesis : Relaid ['(', 'y', ' ', 'z'] [' ', '(', 'y', '\t', '\u3000', 'z', ' '] :=
    @Relaid.piece [] [' '] _ ['('] _ _ _ (Lexeme.cut_delimiter (s := "(") (by decide) _) nofun
      (List.forall_mem_nil _) (List.all_eq_true.1 rfl) nofun hy
  have hplus : Relaid [' ', ' ', '+', '(', 'y', ' ', 'z']
      ['\n', '+', ' ', '(', 'y', '\t', '\u3000', 'z', ' '] :=
    @Relaid.piece [' ', ' '] ['\n'] _ ['+'] _ _ _
      (Lexeme.cut_symbol (s := "+") (by decide) (Lexeme.joins_cons rfl _)) nofun
      (List.all_eq_true.1 rfl) (List.all_eq_true.1 rfl) nofun hparenthesis
  have hx : Relaid ['x', ' ', ' ', '+', '(', 'y', ' ', 'z']
      ['x', '\n', '+', ' ', '(', 'y', '\t', '\u3000', 'z', ' '] :=
    @Relaid.piece [] [] ['x'] ['x'] _ _ .identifier rfl nofun (List.forall_mem_nil _)
      (List.forall_mem_nil _) (absurd rfl) hplus
  have h : Respaced s s' := ⟨[], ['\u2003'], _, _, by decide +kernel, by decide +kernel,
    List.forall_mem_nil _, List.all_eq_true.1 rfl, hx⟩
  have hts : (Source.ofString s).tokens = .ok ts := by decide +kernel
  exact ⟨h, hts, h.same hts⟩

end Respaced

end TemplateExpr
