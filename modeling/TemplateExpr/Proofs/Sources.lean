import TemplateExpr.Proofs.Context
import TemplateExpr.Proofs.Lexing
import TemplateExpr.Proofs.Recognition

/-!
# Reading texts

What is known of streams of tokens carried over to texts. A text is read as an expression exactly
when it can be cut into terminals from which the expression is derived, and a text that can be cut
and derived is refused for nothing but too many levels (`ofString_of_derives`).

## The end of a text

The end token of a text has no text of its own, so a pipe at the end of a text makes a filter with
an empty name. Derivations from the terminals of a text have that name at the end, and the end token
itself is none of the terminals.

## Yielding an expression

That a text is read as an expression unless the expression has too many levels is what can be said
of a text without counting (`Yields`). Where the levels are known not to be too many, as for any
text that is read at all, it comes to being read as the expression (`Yields.ofString_eq`).
-/

namespace TemplateExpr

/-! ## Yielding an expression -/

/-- A text is read as an expression unless the expression has too many levels. -/
def Yields (s : String) (e : Expr) : Prop :=
  Expr.ofString s = .ok e ∨ ∃ t, Expr.ofString s = .error (.nestingTooDeep t)

theorem Yields.ofString_eq {s : String} {e : Expr} (h : Yields s e)
    (hok : (Expr.ofString s).isOk = true) : Expr.ofString s = .ok e := by
  refine h.resolve_right ?_
  rintro ⟨t, ht⟩
  rw [ht] at hok
  cases hok

/-! ## Streams that end with an end token -/

section Stream

variable {us : List Token} {t : Token} {p : Position}

theorem stopOf_concat (h : ∀ t ∈ us, t.isEof = false) (ht : t.isEof = true) :
    Cursor.stopOf (us ++ [t]) = t := by
  have hfind : (us ++ [t]).find? Token.isEof = some t := by
    rw [List.find?_append, List.find?_eq_none.2 fun u hu ↦ by simp [h u hu],
      List.find?_cons_of_pos ht]
    rfl
  rw [Cursor.stopOf, hfind]

theorem ahead_ofTokens_concat (h : ∀ t ∈ us, t.isEof = false) (ht : t.isEof = true) :
    (Cursor.ofTokens (us ++ [t])).ahead = us := by
  have htake : (us ++ [t]).takeWhile (!·.isEof) = us := by
    rw [List.takeWhile_append_of_pos fun u hu ↦ by simp [h u hu],
      List.takeWhile_cons_of_neg (by simp [ht]), List.append_nil]
  exact htake

theorem ahead_ofTokens_of_isEof (h : ∀ t ∈ us, t.isEof = false) :
    (Cursor.ofTokens us).ahead = us :=
  List.takeWhile_eq_self_iff.2 fun t ht ↦ by simp [h t ht]

theorem stopOf_append_eof (h : ∀ t ∈ us, t.isEof = false) :
    Cursor.stopOf (us ++ [Token.eof p]) = Token.eof p :=
  stopOf_concat h rfl

theorem terminals_ofTokens_append_eof (h : ∀ t ∈ us, t.isEof = false) :
    (Cursor.ofTokens (us ++ [Token.eof p])).terminals = us.map Token.terminal :=
  congrArg (List.map Token.terminal) (ahead_ofTokens_concat h rfl)

theorem isEof_of_lexes {cs : List Char} (h : Lexes cs (us.map Token.terminal)) :
    ∀ t ∈ us, t.isEof = false := by
  intro t ht
  have hlexical := h.lexical t.terminal (List.mem_map_of_mem ht)
  obtain ⟨kind, text, position⟩ := t
  cases kind with
  | eof => exact hlexical.elim
  | identifier | number | string | symbol => rfl

end Stream

namespace Expr

variable {s : String} {ts : List Terminal} {d : Nat} {e : Expr}

/-! ## Tokens and terminals -/

/-- The tokens of a text that can be cut. -/
theorem tokens_of_lexes (h : Lexes s.toList ts) : ∃ us p,
    (Source.ofString s).tokens = .ok (us ++ [Token.eof p]) ∧ us.map Token.terminal = ts := by
  obtain ⟨us, p, hscan, hus⟩ := h.exists_scan_eq Position.start
  exact ⟨us, p, by rw [Source.tokens, Source.ofString, hscan], hus⟩

theorem lexes_of_tokens {ts : List Token} (h : (Source.ofString s).tokens = .ok ts) :
    ∃ us p, ts = us ++ [Token.eof p] ∧ Lexes s.toList (us.map Token.terminal) := by
  rw [Source.tokens] at h
  split at h
  · next hscan =>
    cases h
    exact Lexes.of_scan hscan
  · cases h

/-! ## Texts and derivations -/

/-- A text that is read can be cut and derived, within the limit. -/
theorem derives_of_ofString (h : ofString s = .ok e) : ∃ ts d,
    Lexes s.toList ts ∧ d ≤ maxNesting ∧ Derives (some "") d (.expression e) ts [] := by
  rw [ofString, Reading.onText] at h
  split at h
  · next ts htokens =>
    obtain ⟨us, p, rfl, hlexes⟩ := lexes_of_tokens htokens
    obtain ⟨d, hd, hder⟩ := Reading.derives_of_onTokens_whole h
    have heof := isEof_of_lexes hlexes
    rw [stopOf_append_eof heof, terminals_ofTokens_append_eof heof] at hder
    exact ⟨_, d, hlexes, hd, hder⟩
  · cases h

/-- A text that is read as a list can be cut, and a first expression and the others after it are
derived. -/
theorem derives_of_listOfString {es : List Expr} (h : listOfString s = .ok es) :
    ∃ ts us e es', es = e :: es' ∧ Lexes s.toList ts ∧
      (∃ d, Derives (some "") d (.expression e) ts us) ∧
      ∃ d, Derives (some "") d (.listRest es') us [] := by
  rw [listOfString, Reading.onText] at h
  split at h
  · next ts htokens =>
    obtain ⟨us, p, rfl, hlexes⟩ := lexes_of_tokens htokens
    have heof := isEof_of_lexes hlexes
    obtain ⟨c, hr⟩ := Reading.of_onTokens_eq_ok h
    obtain ⟨hr, hend⟩ := Reading.of_toEnd_eq_ok hr
    obtain ⟨-, e, es', vs, rfl, ⟨d, -, hhead⟩, d', -, hrest⟩ :=
      Reading.sound_list (Reading.sound_within (Cursor.stopOf _) maxNesting).expression rfl hr
    rw [stopOf_append_eof heof] at hhead hrest
    rw [terminals_ofTokens_append_eof heof] at hhead
    exact ⟨_, vs, e, es', rfl, hlexes, ⟨d, hhead⟩, d', hend ▸ hrest⟩
  · cases h

/-- A text that can be cut and derived is read if it has no more levels than there may be, and is
refused for its levels otherwise. -/
theorem ofString_of_derives (h : Lexes s.toList ts)
    (h' : Derives (some "") d (.expression e) ts []) :
    (d ≤ maxNesting → ofString s = .ok e) ∧
      (maxNesting < d → ∃ t, ofString s = .error (.nestingTooDeep t)) := by
  obtain ⟨us, p, htokens, rfl⟩ := tokens_of_lexes h
  have heof := isEof_of_lexes h
  rw [← terminals_ofTokens_append_eof (p := p) heof] at h'
  -- the end token of a text gives a filter without a name the empty one
  have hstop : "" = (Cursor.stopOf (us ++ [Token.eof p])).text := by
    rw [stopOf_append_eof heof]
    rfl
  rw [hstop] at h'
  rw [ofString, Reading.onText, htokens]
  exact ⟨Reading.onTokens_whole_of_derives h', Reading.onTokens_whole_of_maxNesting_lt h'⟩

theorem yields_of_derives (h : Lexes s.toList ts)
    (h' : Derives (some "") d (.expression e) ts []) : Yields s e :=
  (Nat.lt_or_ge maxNesting d).symm.imp (ofString_of_derives h h').1 (ofString_of_derives h h').2

end Expr

end TemplateExpr
