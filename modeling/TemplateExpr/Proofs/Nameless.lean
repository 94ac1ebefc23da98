import TemplateExpr.Proofs.BreakingOff

/-!
# Filters without a name

What becomes of a stream that ends where a name of a filter should stand. The name is taken from
whatever token comes next, and at the end that is the end token (`Reading.filter_named_by_end`). So
only the last filter can be without a name of its own, and only if its pipe is the last token. A
stream that breaks off after an operator is refused instead, because the end token is no operand
(`Reading.filters_named_by_tokens`).

## Three answers

How a reading names filters is said once for all that read expressions or lists of them
(`FiltersNamed`): where the names come from, what a stream with a pipe at its end is read as, and
what becomes of one that ends before an operand. None of it looks into the productions. The first
follows from the derivation of what has been read. The second compares two streams by what is
derived from them, since a string after the pipe is a name like any other. The third compares a
stream with a longer one on which the reading goes on, and both are read side by side up to the
place where the shorter one ends (`Reading.Along`).
-/

open scoped List

namespace TemplateExpr

open Terminal

namespace Token

/-! ## Tokens behind pipes -/

/-- The tokens that stand right behind a pipe. -/
def behindPipes (ts : List Token) : List Token := followers (·.spells "|") ts

/-- The last of some tokens is a pipe. -/
def EndWithPipe (ts : List Token) : Prop := ∃ t ∈ ts.getLast?, t.spells "|" = true

variable (ts : List Token)

theorem behindPipes_map_terminal :
    Terminal.behindPipes (ts.map terminal) = (behindPipes ts).map terminal := by
  rw [Terminal.behindPipes, followers_map]
  simp only [spells_terminal]
  rfl

theorem endsWithoutPipe_map_terminal_iff :
    EndsWithoutPipe (ts.map terminal) ↔ ¬ EndWithPipe ts := by
  simp [EndsWithoutPipe, EndWithPipe, spells_terminal]

end Token

/-! ## How a reading names filters -/

/-- How a reading names filters. -/
structure FiltersNamed {α : Type} (names : α → List String) (r : Reading α) : Prop where
  /-- The names are those of tokens that have been passed right behind a pipe, one from each and in
  the order of the tokens. Only the last one can be that of the end token, and then the last token
  before is a pipe. -/
  named {ts : List Token} {a : α} {c : Cursor}
    (h : r.outcome (Cursor.ofTokens ts) = (.ok a, c)) :
    (Cursor.ofTokens ts).ahead = c.behind.reverse ++ c.ahead ∧
      ∃ named, named <+ Token.behindPipes c.behind.reverse ∧
        (names a = named.map Token.text ∨ c.ahead = [] ∧ Token.EndWithPipe c.behind.reverse ∧
          names a = named.map Token.text ++ [(Cursor.stopOf ts).text])
  /-- Tokens with a pipe as their last one are read to their end exactly if they are with the text
  of the end token as a string after the pipe, or if they are whatever the end token. -/
  written {ts us : List Token} {a : α} (hus : (Cursor.ofTokens ts).ahead = us)
    (hpipe : Token.EndWithPipe us) (p : Position) :
    (Reading.toEnd r).onTokens ts = .ok a ↔
      (Reading.toEnd r).onTokens (us ++ [⟨.string, (Cursor.stopOf ts).text, p⟩]) = .ok a ∨
        ∀ stop : Token, stop.isEof = true → (Reading.toEnd r).onTokens (us ++ [stop]) = .ok a
  /-- Tokens without a pipe as their last one, after which an operand can be read, are refused at
  the end token if it comes instead. -/
  broken {ts us more : List Token} {t : Token} {a : α} {c : Cursor}
    (hus : (Cursor.ofTokens ts).ahead = us) (hpipe : ¬ Token.EndWithPipe us)
    (h : r.outcome (Cursor.ofTokens (us ++ t :: more)) = (.ok a, c)) (ht : t.kind = .string)
    (hpassed : us.length < c.offset) :
    r.onTokens ts = .error (.unexpectedToken (Cursor.stopOf ts))

namespace FiltersNamed

variable {α : Type} {names : α → List String} {r : Reading α}

theorem toEnd (h : FiltersNamed names r) : FiltersNamed names (Reading.toEnd r) where
  named houtcome := by
    obtain ⟨hr, -⟩ := Reading.of_toEnd_eq_ok (Reading.eq_ok_of_outcome houtcome)
    exact h.named (Reading.outcome_of_ok hr)
  written hus hpipe p := by
    simp only [Reading.onTokens_toEnd_toEnd_eq_ok_iff]
    exact h.written hus hpipe p
  broken hus hpipe houtcome ht hpassed := by
    obtain ⟨hr, -⟩ := Reading.of_toEnd_eq_ok (Reading.eq_ok_of_outcome houtcome)
    obtain ⟨c, hc⟩ := Reading.of_onTokens_eq_error
      (h.broken hus hpipe (Reading.outcome_of_ok hr) ht hpassed)
    have htoEnd : Reading.toEnd r _ = _ := Reading.bind_of_error hc
    rw [Reading.onTokens, Reading.outcome_of_error htoEnd]

end FiltersNamed

/-! ## Streams with a string at their end -/

namespace Reading

variable {α : Type} {front : List Terminal} {phrase : α → Phrase} {r : Reading α}

theorem Moves.stop_eq {ts : List Token} (h : Moves (Cursor.ofTokens ts) r) :
    (r.outcome (Cursor.ofTokens ts)).2.stop = Cursor.stopOf ts := by
  have hstream := h.1
  rw [Cursor.stream_ofTokens, Cursor.stream, Cursor.remaining, ← List.append_assoc] at hstream
  exact List.singleton_inj.1 (List.append_inj' hstream rfl).2

theorem prolongs_ofTokens {ts us : List Token} {t : Token} (more : List Token)
    (hus : (Cursor.ofTokens ts).ahead = us) (hpipe : ¬ Token.EndWithPipe us)
    (ht : t.kind = .string) : Prolongs t.text (Cursor.ofTokens more).terminals
      (Cursor.ofTokens ts) (Cursor.ofTokens (us ++ t :: more)) := by
  have hisEof : ∀ u ∈ us, u.isEof = false := hus ▸ Cursor.isEof_of_mem_ahead
  have hstring : ∀ u ∈ [t], u.isEof = false := by simp [Token.isEof, ht]
  have hmore : (Cursor.ofTokens (t :: more)).ahead = t :: (Cursor.ofTokens more).ahead :=
    Cursor.ahead_ofTokens_append hstring more
  have hterminal : t.terminal = Derives.nameAtEnd t.text := by
    rw [Token.terminal, ht]
    rfl
  constructor
  · rw [Cursor.terminals, hus]
    exact (Token.endsWithoutPipe_map_terminal_iff us).2 hpipe
  · rw [Cursor.terminals, Cursor.ahead_ofTokens_append hisEof, hmore, List.map_append,
      List.map_cons, hterminal, Cursor.terminals, hus]
    rfl

theorem Recognizes.onTokens_string_iff (hr : Recognizes front phrase r) {us : List Token} {a : α}
    (hus : ∀ t ∈ us, t.isEof = false) {s : String} {p : Position} :
    (toEnd r).onTokens (us ++ [⟨.string, s, p⟩]) = .ok a ↔ ∃ d ≤ maxNesting,
      Derives none d (phrase a) (front ++ us.map Token.terminal ++ [Derives.nameAtEnd s]) [] := by
  have hstring : ∀ t ∈ us ++ [⟨.string, s, p⟩], t.isEof = false :=
    List.forall_mem_append.2 ⟨hus, by simp [Token.isEof]⟩
  have hends : EndsWithoutPipe (front ++ us.map Token.terminal ++ [Derives.nameAtEnd s]) := by
    refine EndsWithoutPipe.append _ (fun t ht ↦ ?_) (List.cons_ne_nil _ _)
    obtain rfl := Option.some.inj ht
    exact Derives.spells_nameAtEnd s _
  rw [hr.onTokens_toEnd_iff, Cursor.terminals, ahead_ofTokens_of_isEof hstring, List.map_append,
    ← List.append_assoc]
  exact exists_congr fun d ↦ and_congr_right fun _ ↦
    ⟨fun h ↦ h.of_endsWithoutPipe (hr.levels a) hends, fun h ↦ h.mono⟩

/-! ## Readings of phrases -/

theorem Recognizes.filtersNamed {names : α → List String} (hr : Recognizes front phrase r)
    (hnames : ∀ a, (phrase a).Adds (names a)) (halong : Along r) : FiltersNamed names r where
  named {ts a c} houtcome := by
    have hc := eq_ok_of_outcome houtcome
    have hahead := hr.ahead_eq hc
    refine ⟨hahead, ?_⟩
    obtain ⟨d, -, hder⟩ := hr.sound hc
    obtain ⟨ws, names', b, hws, hadds, hnamed, -⟩ := hder.names_adds
    rw [Cursor.terminals, hahead, List.map_append, ← List.append_assoc] at hws
    rw [← List.append_cancel_right hws, ← (hnames a).unique hadds] at hnamed
    have hfront := hnamed.of_front hr.plain
    generalize hrest : c.terminals = rest at hfront
    generalize hall : names a = all at hfront ⊢
    cases hfront with
    | terminals h =>
      rw [Token.behindPipes_map_terminal] at h
      obtain ⟨named, hsub, rfl⟩ := List.sublist_map_iff.1 h
      exact ⟨named, hsub, .inl (List.map_map ..)⟩
    | stop h hpipe hs =>
      rw [Token.behindPipes_map_terminal] at h
      obtain ⟨named, hsub, rfl⟩ := List.sublist_map_iff.1 h
      rw [Token.endsWithoutPipe_map_terminal_iff, not_not] at hpipe
      obtain rfl := Option.some.inj hs
      refine ⟨named, hsub, .inr ⟨List.map_eq_nil_iff.1 hrest, hpipe, ?_⟩⟩
      rw [List.map_map]
      rfl
  written {ts us a} hus hpipe p := by
    have hisEof : ∀ u ∈ us, u.isEof = false := hus ▸ Cursor.isEof_of_mem_ahead
    have hends : ¬ EndsWithoutPipe (front ++ us.map Token.terminal) := fun hends ↦
      (Token.endsWithoutPipe_map_terminal_iff us).1 (hends.of_suffix (List.suffix_append _ _)) hpipe
    rw [hr.onTokens_string_iff hisEof, hr.onTokens_concat_iff hisEof, hr.onTokens_toEnd_iff,
      Cursor.terminals, hus, ← exists_or]
    refine exists_congr fun d ↦ ?_
    rw [Derives.of_pipe_iff (hr.levels a) hends, and_or_left]
  broken {ts us more t a c} hus hpipe houtcome ht hpassed := by
    have hc := eq_ok_of_outcome houtcome
    have hprolongs := prolongs_ofTokens more hus hpipe ht
    have halongside := halong hprolongs
    rw [hc] at halongside
    generalize hread : r (Cursor.ofTokens ts) = result at halongside
    cases halongside with
    | @ok _ c' _ h =>
      -- the string is left, so it has not been passed
      have hleft := congrArg List.length h.terminals_eq
      have hall := congrArg List.length hprolongs.terminals_eq
      have hsplit := congrArg List.length (hr.ahead_eq hc)
      simp only [List.length_append, List.length_cons, Cursor.length_terminals,
        List.length_reverse] at hleft hall hsplit
      rw [hus] at hall
      rw [Cursor.offset] at hpassed
      omega
    | @wants c' _ h =>
      have hstop := (hr.moves (Cursor.ofTokens ts)).stop_eq
      rw [outcome_of_error hread] at hstop
      rw [onTokens, outcome_of_error hread, Cursor.peek, List.map_eq_nil_iff.1 h, ← hstop]

/-! ## Expressions and lists -/

/-- Filters are named from the tokens behind their pipes. It is only where a pipe is the last token
of a stream that the end token takes the place of the name, and such a stream is read as one with
the name written out. Where the end token takes the place of an operand, it is refused. -/
theorem filters_named_by_tokens :
    FiltersNamed Expr.filterNames expression ∧ FiltersNamed Expr.filterNames whole ∧
      FiltersNamed Expr.filterNamesList list ∧ FiltersNamed Expr.filterNamesList wholeList := by
  have hexpression : FiltersNamed Expr.filterNames expression :=
    recognizes_expression.filtersNamed (fun _ ↦ rfl) along_expression
  have hlist : FiltersNamed Expr.filterNamesList list :=
    recognizes_list.filtersNamed (fun _ ↦ rfl) along_list_expression
  exact ⟨hexpression, hexpression.toEnd, hlist, hlist.toEnd⟩

/-- With a pipe as the last token there is a filter without a token for its name. -/
theorem filter_named_by_end : ¬ ∀ ts e, whole.onTokens ts = .ok e →
    ∃ named, named <+ Token.behindPipes (Cursor.ofTokens ts).ahead ∧
      e.filterNames = named.map Token.text := by
  intro h
  let ts : List Token := [⟨.identifier, "a", ⟨1, 1, 0⟩⟩, ⟨.symbol, "|", ⟨1, 3, 2⟩⟩,
    ⟨.eof, "", ⟨1, 4, 3⟩⟩]
  have hread : whole.onTokens ts = .ok (.filter "" [.name "a"]) := by rfl
  obtain ⟨named, hsub, hnames⟩ := h ts _ hread
  obtain rfl := List.sublist_nil.1 hsub
  cases hnames

end Reading

end TemplateExpr
