import TemplateExpr.Proofs.Streams

/-!
# Lists in segments

A list of expressions is the same as expressions with commas between them, each of them read on its
own: the tokens of a text are read as a list exactly if they can be divided at commas into segments
that are expressions (`Expr.listOfString_segmented`).

## Commas that do not divide

A segment may have commas of its own, between arguments or elements or as the name of a filter, and
still there is one division at most, because each segment is as long as the expression that stands
at the beginning of the tokens (`Segmented.unique`).

## Segments on their own

What is different before a comma and at the end is a filter whose pipe is the last token. At the end
it has its name from the end token, and before a comma the comma is its name. So a segment before a
comma has to be the same expression whatever end token is put after it.
-/

namespace TemplateExpr

open Terminal

/-! ## Divisions -/

/-- Tokens divided at commas into segments that are expressions on their own, the last one with the
help of the end token if need be. -/
inductive Segmented : List Token → List (List Token) → List Expr → Prop where
  /-- A single segment. -/
  | last {seg : List Token} {e : Expr} (h : Reading.whole.onTokens seg = .ok e) :
      Segmented seg [seg] [e]
  /-- A segment, a comma and other segments. -/
  | cons {seg rest : List Token} {segs : List (List Token)} {comma : Token} {e : Expr}
      {es : List Expr} (h : Reading.whole.onTokens seg = .ok e)
      (hend : ∀ stop : Token, stop.isEof = true → Reading.whole.onTokens (seg ++ [stop]) = .ok e)
      (hcomma : comma.spells "," = true) (hrest : Segmented rest segs es) :
      Segmented (seg ++ comma :: rest) (seg :: segs) (e :: es)

namespace Reading

/-! ## Segments -/

section Segment

variable {us : List Token} (hus : ∀ t ∈ us, t.isEof = false)
include hus

theorem text_stopOf_of_isEof : (Cursor.stopOf us).text = "" := by
  rw [Cursor.stopOf, List.find?_eq_none.2 fun t ht ↦ by simp [hus t ht]]
  rfl

theorem onTokens_whole_segment {e : Expr} : whole.onTokens us = .ok e ↔
    ∃ d ≤ maxNesting, Derives (some "") d (.expression e) (us.map Token.terminal) [] := by
  have h : whole.onTokens us = .ok e ↔ _ := recognizes_expression.onTokens_toEnd_iff
  rwa [text_stopOf_of_isEof hus, Cursor.terminals, ahead_ofTokens_of_isEof hus] at h

end Segment

end Reading

namespace Segmented

open Reading

variable {us : List Token} {segs : List (List Token)} {es : List Expr}

/-! ## Divisions and derivations -/

/-- After a comma, tokens that are divided into segments are the rest of a list. -/
theorem exists_derives_listRest (h : Segmented us segs es) (hus : ∀ t ∈ us, t.isEof = false)
    {t : Terminal} (ht : t.spells "," = true) : ∃ d ≤ maxNesting,
      Derives (some "") d (.listRest es) (t :: us.map Token.terminal) [] := by
  induction h generalizing t with
  | @last seg e h =>
    obtain ⟨d, hd, hder⟩ := (onTokens_whole_segment hus).1 h
    exact ⟨max d 0, by omega, .listMore ht hder (.listEnd rfl)⟩
  | @cons seg rest _ comma e es _ hend hcomma _ ih =>
    obtain ⟨hseg, hrest⟩ := List.forall_mem_append.1 hus
    obtain ⟨d, hd, hder⟩ := (recognizes_expression.onTokens_concat_iff hseg).1 hend
    rw [← spells_terminal] at hcomma
    obtain ⟨d', hd', hder'⟩ := ih (List.forall_mem_cons.1 hrest).2 hcomma
    refine ⟨max d d', by omega, ?_⟩
    rw [List.map_append, List.map_cons]
    exact .listMore ht (hder.expression_append (closes_of_spells hcomma (by decide) _)).mono hder'

/-- Tokens that are the rest of a list after a comma can be divided into segments. -/
theorem of_derives {d : Nat} {t : Terminal} (hus : ∀ t ∈ us, t.isEof = false)
    (ht : t.spells "," = true) (hd : d ≤ maxNesting)
    (h : Derives (some "") d (.listRest es) (t :: us.map Token.terminal) []) :
    ∃ segs, Segmented us segs es := by
  induction es generalizing us d t with
  | nil => cases h
  | cons e es ih =>
    cases h with
    | @listMore d₁ d₂ _ _ _ _ vs _ _ head tail =>
      generalize hvs : us.map Token.terminal = ts at head
      cases tail with
      | listEnd =>
        exact ⟨[us], .last ((onTokens_whole_segment hus).2 ⟨d₁, by omega, hvs ▸ head⟩)⟩
      | @listMore d₃ d₄ e' es' t' ws _ _ ht' head' tail' =>
        -- the expression ends before a comma, so it is one without the comma as well
        obtain ⟨vs, rfl, hleaves | ⟨hnil, -⟩⟩ := head.exists_eq_append_or (List.nil_subset _)
        · obtain ⟨seg, rest, rfl, rfl, hrest⟩ := List.map_eq_append_iff.1 hvs
          obtain ⟨comma, rest, rfl, rfl, rfl⟩ := List.map_eq_cons_iff.1 hrest
          obtain ⟨hseg, hrest⟩ := List.forall_mem_append.1 hus
          have hder := hleaves [] (.of_closes closes_nil rfl)
          rw [List.append_nil] at hder
          have hend := (recognizes_expression.onTokens_concat_iff hseg).2 ⟨d₁, by omega, hder⟩
          have hread := (onTokens_whole_segment hseg).2 ⟨d₁, by omega, hder.mono⟩
          obtain ⟨segs, hsegs⟩ := ih (List.forall_mem_cons.1 hrest).2 ht'
            (d := max d₃ d₄) (by omega) (.listMore ht' head' tail')
          rw [spells_terminal] at ht'
          exact ⟨seg :: segs, .cons hread hend ht' hsegs⟩
        · cases hnil

/-! ## The first segment -/

/-- A segment that does not need the end token is read off any tokens that begin with it and a
comma, and the comma is left. -/
theorem expression_of_cons {ts seg rest : List Token} {comma : Token} {e : Expr}
    (hend : ∀ stop : Token, stop.isEof = true → whole.onTokens (seg ++ [stop]) = .ok e)
    (hcomma : comma.spells "," = true) (hts : (Cursor.ofTokens ts).ahead = seg ++ comma :: rest) :
    ∃ c, expression (Cursor.ofTokens ts) = .ok e c ∧ c.ahead = comma :: rest := by
  have hseg : ∀ t ∈ seg, t.isEof = false :=
    fun t ht ↦ Cursor.isEof_of_mem_ahead t (hts ▸ List.mem_append_left _ ht)
  obtain ⟨d, hd, hder⟩ := (recognizes_expression.onTokens_concat_iff hseg).1 hend
  have hread : Derives none d (.expression e) (Cursor.ofTokens ts).terminals
      ((comma :: rest).map Token.terminal) := by
    rw [Cursor.terminals, hts, List.map_append]
    rw [← spells_terminal] at hcomma
    exact hder.expression_append (closes_of_spells hcomma (by decide) _)
  obtain ⟨c, hc, hrest⟩ := recognizes_expression.complete (c := Cursor.ofTokens ts) hread.mono hd
  refine ⟨c, hc, ?_⟩
  -- as many tokens are left as there are from the comma on, and they are the last ones
  have hsplit := (recognizes_expression.ahead_eq hc).symm.trans hts
  have hlen := congrArg List.length hrest
  rw [Cursor.length_terminals, List.length_map] at hlen
  exact (List.append_inj' hsplit hlen).2

/-- The first segment is what is read as an expression at the beginning. -/
theorem read_first {seg : List Token} (h : Segmented us (seg :: segs) es)
    (hus : ∀ t ∈ us, t.isEof = false) :
    ∃ e c, expression (Cursor.ofTokens us) = .ok e c ∧ c.behind.reverse = seg := by
  have hahead := ahead_ofTokens_of_isEof hus
  cases h with
  | last h =>
    obtain ⟨c, hc, hend⟩ := onTokens_toEnd_eq_ok_iff.1 h
    refine ⟨_, c, hc, ?_⟩
    have hsplit := recognizes_expression.ahead_eq hc
    rw [hahead, List.map_eq_nil_iff.1 hend, List.append_nil] at hsplit
    exact hsplit.symm
  | cons _ hend hcomma _ =>
    obtain ⟨c, hc, hrest⟩ := expression_of_cons hend hcomma hahead
    refine ⟨_, c, hc, ?_⟩
    have hsplit := recognizes_expression.ahead_eq hc
    rw [hahead, hrest] at hsplit
    exact (List.append_cancel_right hsplit).symm

theorem first_unique {seg seg' : List Token} {segs' : List (List Token)} {es' : List Expr}
    (h : Segmented us (seg :: segs) es) (h' : Segmented us (seg' :: segs') es')
    (hus : ∀ t ∈ us, t.isEof = false) : seg = seg' := by
  obtain ⟨e, c, hc, hseg⟩ := h.read_first hus
  obtain ⟨e', c', hc', hseg'⟩ := h'.read_first hus
  cases hc.symm.trans hc'
  exact hseg.symm.trans hseg'

/-- There is one way at most to divide tokens into segments. -/
theorem unique {segs' : List (List Token)} {es' : List Expr} (h : Segmented us segs es)
    (h' : Segmented us segs' es') (hus : ∀ t ∈ us, t.isEof = false) : segs = segs' := by
  induction h generalizing segs' es' with
  | @last seg e h =>
    cases h' with
    | last => rfl
    | cons h' hend hcomma hrest =>
      have hseg := (Segmented.last h).first_unique (.cons h' hend hcomma hrest) hus
      simp at hseg
  | @cons seg rest segs comma e es h hend hcomma hrest ih =>
    have hcons := Segmented.cons h hend hcomma hrest
    generalize hts : seg ++ comma :: rest = ts at h' hus hcons
    cases h' with
    | last h' =>
      have hseg := hcons.first_unique (.last h') hus
      simp [← hts] at hseg
    | @cons seg' rest' segs' comma' e' es' h' hend' hcomma' hrest' =>
      obtain rfl := hcons.first_unique (.cons h' hend' hcomma' hrest') hus
      obtain ⟨rfl, rfl⟩ := List.cons.inj (List.append_cancel_left hts)
      obtain ⟨-, hrest⟩ := List.forall_mem_append.1 hus
      rw [ih hrest' (List.forall_mem_cons.1 hrest).2]

end Segmented

namespace Expr

/-! ## Texts -/

section Text

variable {s : String} {us : List Token} {p : Position} {e : Expr} {es : List Expr}
  (h : (Source.ofString s).tokens = .ok (us ++ [Token.eof p])) (hus : ∀ t ∈ us, t.isEof = false)
include h hus

theorem ofString_eq_ok_iff : ofString s = .ok e ↔
    ∃ d ≤ maxNesting, Derives (some "") d (.expression e) (us.map Token.terminal) [] := by
  rw [ofString, Reading.onText, h]
  exact Reading.recognizes_expression.onTokens_append_stop_iff hus rfl

theorem listOfString_eq_ok_iff : listOfString s = .ok es ↔ ∃ d ≤ maxNesting,
    Derives (some "") d (.listRest es) (symbol "," :: us.map Token.terminal) [] := by
  rw [listOfString, Reading.onText, h]
  exact Reading.recognizes_list.onTokens_append_stop_iff hus rfl

theorem listOfString_singleton_iff : listOfString s = .ok [e] ↔ ofString s = .ok e := by
  rw [ofString_eq_ok_iff h hus, listOfString_eq_ok_iff h hus]
  constructor
  · rintro ⟨d, hd, hder⟩
    cases hder with
    | listMore _ head tail =>
      cases tail with
      | listEnd => exact ⟨_, by omega, head⟩
  · rintro ⟨d, hd, hder⟩
    exact ⟨max d 0, by omega, .listMore rfl hder (.listEnd rfl)⟩

theorem listOfString_iff_existsUnique :
    listOfString s = .ok es ↔ ∃! segs, Segmented us segs es := by
  rw [listOfString_eq_ok_iff h hus]
  constructor
  · rintro ⟨d, hd, hder⟩
    obtain ⟨segs, hsegs⟩ := Segmented.of_derives hus rfl hd hder
    exact ⟨segs, hsegs, fun segs' hsegs' ↦ hsegs'.unique hsegs hus⟩
  · rintro ⟨segs, hsegs, -⟩
    exact hsegs.exists_derives_listRest hus rfl

end Text

/-! ## Lists of a text -/

/-- The tokens of a text are read as a list exactly if they can be divided at commas into segments
that are the expressions of the list, in the one way in which that can be done. A list of one
expression is read where the expression is, and where there are more of them, the text is refused as
an expression at the first comma between segments. -/
theorem listOfString_segmented {s : String} {ts : List Token}
    (h : (Source.ofString s).tokens = .ok ts) :
    (∀ es, listOfString s = .ok es ↔ ∃! segs, Segmented ts.dropLast segs es) ∧
      (∀ e, listOfString s = .ok [e] ↔ ofString s = .ok e) ∧
      ∀ es, listOfString s = .ok es → 2 ≤ es.length → ∃ seg comma rest segs,
        ts.dropLast = seg ++ comma :: rest ∧ Segmented ts.dropLast (seg :: segs) es ∧
          ofString s = .error (.unexpectedToken comma) := by
  obtain ⟨us, p, rfl, hlexes⟩ := lexes_of_tokens h
  have hus := isEof_of_lexes hlexes
  rw [List.dropLast_concat]
  have hsegmented (es : List Expr) : listOfString s = .ok es ↔ ∃! segs, Segmented us segs es :=
    listOfString_iff_existsUnique h hus
  refine ⟨hsegmented, fun e ↦ listOfString_singleton_iff h hus, fun es hes hlen ↦ ?_⟩
  obtain ⟨segs, hsegs, -⟩ := (hsegmented es).1 hes
  cases hsegs with
  | last => simp at hlen
  | @cons seg rest segs comma e es hread hend hcomma hrest =>
    refine ⟨seg, comma, rest, segs, rfl, .cons hread hend hcomma hrest, ?_⟩
    obtain ⟨c, hc, hahead⟩ := Segmented.expression_of_cons hend hcomma
      (ahead_ofTokens_concat (t := Token.eof p) hus rfl)
    have hleft : c.terminals ≠ [] := by simp [Cursor.terminals, hahead]
    have hpeek : c.peek = comma := by rw [Cursor.peek, hahead]
    rw [ofString, Reading.onText, h]
    show Reading.whole.onTokens (seg ++ comma :: rest ++ [Token.eof p]) = _
    have hwhole : Reading.whole _ = _ := Reading.toEnd_of_left hc hleft
    rw [Reading.onTokens, Reading.outcome_of_error hwhole, hpeek]

theorem listOfString_segmented_of_call :
    let s := "f(a,b),c"
    let ts : List Token := [⟨.identifier, "f", ⟨1, 1, 0⟩⟩, ⟨.symbol, "(", ⟨1, 2, 1⟩⟩,
      ⟨.identifier, "a", ⟨1, 3, 2⟩⟩, ⟨.symbol, ",", ⟨1, 4, 3⟩⟩, ⟨.identifier, "b", ⟨1, 5, 4⟩⟩,
      ⟨.symbol, ")", ⟨1, 6, 5⟩⟩, ⟨.symbol, ",", ⟨1, 7, 6⟩⟩, ⟨.identifier, "c", ⟨1, 8, 7⟩⟩,
      ⟨.eof, "", ⟨1, 9, 8⟩⟩]
    let es := [call (string "f") [name "a", name "b"], name "c"]
    (Source.ofString s).tokens = .ok ts ∧ listOfString s = .ok es ∧
      (∃! segs, Segmented ts.dropLast segs es) ∧ ∃ seg comma rest segs,
        ts.dropLast = seg ++ comma :: rest ∧ Segmented ts.dropLast (seg :: segs) es ∧
          ofString s = .error (.unexpectedToken comma) := by
  intro s ts es
  have hts : (Source.ofString s).tokens = .ok ts := by decide +kernel
  have hes : listOfString s = .ok es := by cbv
  obtain ⟨hsegmented, -, hmore⟩ := listOfString_segmented hts
  exact ⟨hts, hes, (hsegmented es).1 hes, hmore es hes (by decide)⟩

end Expr

end TemplateExpr
