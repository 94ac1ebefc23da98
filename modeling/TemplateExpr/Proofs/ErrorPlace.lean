import TemplateExpr.Proofs.Simulation
import TemplateExpr.Proofs.Viability

/-!
# The place of an error

A stream that is not an expression is refused at the first token that is wrong
(`Reading.error_at_first_offence`).

## The first offence

That a token is the first wrong one has two sides. The tokens before it can be continued to an
expression (`Reading.Viable`), and with it they cannot: any stream that begins in the same way is
refused at the same token for the same reason. Both sides are about streams that have not been read,
so they cannot come from the run that has failed. They come from what is known of the reading where
it stops (`Reading.Failure`), which says for which other terminals it stops as well and with which
it would have gone on.

## Levels

An error for too many levels is of another kind, because the tokens that it stands after are often
more than could be put right: no continuation closes what is open within the limit. A stream that
begins with them is refused for the same reason, whatever the next token is, unless an empty list
is closed just there (`Reading.Exhausted`). That exception is the reason why such an error does not
tell whether the tokens before it are viable.
-/

namespace TemplateExpr

open Terminal

/-- A token with a given terminal. Its place does not matter to the grammar. -/
def Terminal.token (t : Terminal) : Token := ⟨t.kind, t.text, Position.start⟩

namespace Cursor

/-! ## Places in a stream -/

theorem take_offset_stream (c : Cursor) : c.stream.take c.offset = c.behind.reverse := by
  rw [stream, offset, ← List.length_reverse, List.take_left']
  rfl

theorem remaining_eq_cons (c : Cursor) : ∃ ts, c.remaining = c.peek :: ts := by
  rw [remaining, peek]
  cases c.ahead with
  | nil => exact ⟨[], rfl⟩
  | cons t ts => exact ⟨ts ++ [c.stop], rfl⟩

theorem getElem?_offset_stream (c : Cursor) : c.stream[c.offset]? = some c.peek := by
  obtain ⟨ts, hts⟩ := c.remaining_eq_cons
  rw [stream, offset, ← List.length_reverse, List.getElem?_append_right le_rfl, Nat.sub_self, hts]
  rfl

theorem take_offset_succ_stream (c : Cursor) :
    c.stream.take (c.offset + 1) = c.behind.reverse ++ [c.peek] := by
  rw [List.take_add_one, take_offset_stream, getElem?_offset_stream]
  rfl

theorem ahead_ofTokens_eq {ts : List Token} {c : Cursor} (h : c.stream = (ofTokens ts).stream) :
    (ofTokens ts).ahead = c.behind.reverse ++ c.ahead := by
  rw [stream_ofTokens, stream, remaining, ← List.append_assoc] at h
  exact (List.append_inj' h rfl).1.symm

theorem ahead_ofTokens_append {ts : List Token} (h : ∀ t ∈ ts, t.isEof = false)
    (more : List Token) : (ofTokens (ts ++ more)).ahead = ts ++ (ofTokens more).ahead :=
  List.takeWhile_append_of_pos fun t ht ↦ by rw [h t ht]; rfl

theorem isEof_of_mem_ahead {c : Cursor} : ∀ t ∈ c.ahead, t.isEof = false :=
  fun t ht ↦ c.isEof_of_mem t (List.mem_append_right _ ht)

theorem isEof_of_mem_behind {c : Cursor} : ∀ t ∈ c.behind.reverse, t.isEof = false :=
  fun t ht ↦ c.isEof_of_mem t (List.mem_append_left _ (List.mem_reverse.1 ht))

theorem begins_terminals_ofTokens {ts : List Token} {lexeme : String}
    (h : ∀ t ∈ ts.head?, t.spells lexeme = false) :
    begins (ofTokens ts).terminals lexeme = false := by
  cases ts with
  | nil => rfl
  | cons t ts =>
    by_cases ht : t.isEof = true
    · simp [terminals, ofTokens, ht]
    · simpa [terminals, ofTokens, ht, spells_terminal] using h t rfl

end Cursor

namespace Reading

variable {α : Type} {c : Cursor}

/-! ## Moving in a stream -/

/-- A reading moves its cursor in the stream and gives no token back. -/
def Moves (c : Cursor) (x : Reading α) : Prop :=
  (x.outcome c).2.stream = c.stream ∧ (x.outcome c).2.ahead.length ≤ c.ahead.length

theorem moves_bind {β : Type} {x : Reading α} {f : α → Reading β} (head : Moves c x)
    (tail : ∀ a c', c'.ahead.length ≤ c.ahead.length → Moves c' (f a)) : Moves c (x >>= f) := by
  cases hx : x c with
  | ok a c' =>
    rw [Moves, outcome_of_ok hx] at head
    obtain ⟨hstream, hle⟩ := tail a c' head.2
    have heq : (x >>= f).outcome c = (f a).outcome c' := by
      rw [outcome, outcome, EStateM.run, EStateM.run, bind_of_ok hx]
    rw [Moves, heq]
    exact ⟨hstream.trans head.1, hle.trans head.2⟩
  | error e c' =>
    rw [Moves, outcome_of_error hx] at head
    rw [Moves, outcome_of_error (bind_of_error hx)]
    exact head

/-- Moving in a stream, as something that a reading has in common with itself. -/
def moving : Simulation Reading Reading where
  Rel c x _ := Moves c x
  rel_pure _ _ := ⟨rfl, le_rfl⟩
  rel_bind head tail := moves_bind head tail
  rel_get tail := tail
  rel_skip {_ c _ _} tail :=
    ⟨tail.1.trans c.stream_skip, tail.2.trans c.length_ahead_skip_le⟩
  rel_throw _ _ := ⟨rfl, le_rfl⟩

theorem moves_whole (c : Cursor) : Moves c whole := by
  refine moves_bind (moving.rel_within maxNesting c) fun a c' _ ↦ ?_
  exact moves_bind moving.rel_finish fun _ c'' _ ↦ ⟨rfl, le_rfl⟩

/-! ## Whole streams -/

theorem fails_whole (c : Cursor) :
    Fails anyReason (Can (maxNesting + 1) .expression) whole c :=
  .toEnd (exact_expression maxNesting) ((fails_within maxNesting).expression_any c)

/-- A whole stream that is refused at a cursor has been read up to there. -/
theorem failure_of_whole {ts : List Token} {e : ParseError} {c : Cursor}
    (h : whole (Cursor.ofTokens ts) = .error e c) :
    c.stream = (Cursor.ofTokens ts).stream ∧ ∃ why : Reason, e = why.error c.peek ∧
      Failure (Can (maxNesting + 1) .expression) whole (c.behind.reverse.map Token.terminal)
        c.terminals why := by
  have hstream := (moves_whole (Cursor.ofTokens ts)).1
  rw [outcome_of_error h] at hstream
  obtain ⟨front, why, hts, he, -, hfail⟩ := fails_whole _ _ _ h
  rw [Cursor.terminals, Cursor.ahead_ofTokens_eq hstream, List.map_append] at hts
  obtain rfl := List.append_cancel_right hts
  exact ⟨hstream, why, he, hfail⟩

section Failure

variable {ts more : List Token} {us rest : List Terminal} {why : Reason}
  (hts : ∀ t ∈ ts, t.isEof = false)
include hts

/-- Terminals that complete some tokens make a stream of them that is read. -/
theorem onTokens_of_completes
    (h : Completes (Can (maxNesting + 1) .expression) (ts.map Token.terminal) us) :
    ∃ e, whole.onTokens (ts ++ us.map Terminal.token) = .ok e := by
  obtain ⟨e, d, hd, hder⟩ := h.derives closes_nil
  rw [List.append_nil] at hder
  have hmore : (Cursor.ofTokens (us.map Terminal.token)).ahead = us.map Terminal.token := by
    refine List.takeWhile_eq_self_iff.2 (List.forall_mem_map.2 fun t ht ↦ ?_)
    have heof : t.token.isEof = false := decide_eq_false (h.kind_ne_eof t ht)
    rw [heof]
    rfl
  have hterminals : (us.map Terminal.token).map Token.terminal = us := by
    rw [List.map_map]
    exact List.map_id us
  refine ⟨e, onTokens_whole_of_derives ?_ (Nat.le_of_lt_succ hd)⟩
  rw [Cursor.terminals, Cursor.ahead_ofTokens_append hts, List.map_append, hmore, hterminals]
  exact hder.mono

variable (h : Failure (Can (maxNesting + 1) .expression) whole (ts.map Token.terminal) rest why)
include h

/-- A reading that has stopped after some tokens stops there before any others for which the reason
stands, and it has left all of them. -/
theorem onTokens_of_stands (hwhy : why.Stands rest (Cursor.ofTokens more).terminals) :
    ∃ c : Cursor, whole.onTokens (ts ++ more) = .error (why.error c.peek) ∧
      c.ahead = (Cursor.ofTokens more).ahead := by
  have hahead := Cursor.ahead_ofTokens_append hts more
  have hterminals : (Cursor.ofTokens (ts ++ more)).terminals =
      ts.map Token.terminal ++ (Cursor.ofTokens more).terminals := by
    rw [Cursor.terminals, hahead, List.map_append, Cursor.terminals]
  obtain ⟨c, hc, hrest⟩ := h.stops hterminals hwhy
  have hstream := (moves_whole (Cursor.ofTokens (ts ++ more))).1
  rw [outcome_of_error hc] at hstream
  have hlen : (Cursor.ofTokens more).ahead.length = c.ahead.length := by
    rw [← Cursor.length_terminals, ← hrest, Cursor.length_terminals]
  have hsplit := hahead.symm.trans (Cursor.ahead_ofTokens_eq hstream)
  exact ⟨c, by rw [onTokens, outcome_of_error hc], (List.append_inj' hsplit hlen).2.symm⟩

theorem onTokens_of_same_token {t : Token} (ht : t.isEof = false)
    (hrest : rest.head? = some t.terminal) (hwhy : ∀ exit, why ≠ .tooDeep exit) :
    whole.onTokens (ts ++ t :: more) = .error (why.error t) := by
  have hahead : (Cursor.ofTokens (t :: more)).ahead = t :: (Cursor.ofTokens more).ahead :=
    Cursor.ahead_ofTokens_append (List.forall_mem_singleton.2 ht) more
  have hhead : (Cursor.ofTokens (t :: more)).terminals.head? = rest.head? := by
    rw [Cursor.terminals, hahead, hrest]
    rfl
  have hne : rest ≠ [] := by
    rintro rfl
    cases hrest
  have hstands : why.Stands rest (Cursor.ofTokens (t :: more)).terminals := by
    cases why with
    | unexpected | expected => exact ⟨hne, hhead⟩
    | tooDeep exit => exact absurd rfl (hwhy exit)
  obtain ⟨c, hc, hahead'⟩ := onTokens_of_stands hts h hstands
  have hpeek : c.peek = t := by rw [Cursor.peek, hahead', hahead]
  rw [hc, hpeek]

end Failure

/-! ## The first offence -/

/-- Some tokens can be continued to an expression. -/
def Viable (ts : List Token) : Prop := ∃ more e, whole.onTokens (ts ++ more) = .ok e

/-- No level is left after some tokens. Whatever follows is refused for this reason, but if an empty
list may end there, it has to be something else than its end. -/
def Exhausted (exit : Option ListEnd) (ts : List Token) : Prop :=
  ∀ more : List Token, (∀ l ∈ exit, ∀ t ∈ more.head?, t.spells l.lexeme = false) →
    ∃ t, whole.onTokens (ts ++ more) = .error (.nestingTooDeep t)

section Failure

variable {ts : List Token} {rest : List Terminal} (hts : ∀ t ∈ ts, t.isEof = false)
include hts

theorem viable_of_remedy {why : Reason} {t : Terminal} (ht : t ∈ why.remedy?)
    (h : Failure (Can (maxNesting + 1) .expression) whole (ts.map Token.terminal) rest why) :
    Viable ts := by
  obtain ⟨us, hus, -⟩ := h.mends ht
  exact ⟨_, onTokens_of_completes hts hus⟩

variable {exit : Option ListEnd} (h : Failure (Can (maxNesting + 1) .expression) whole
  (ts.map Token.terminal) rest (.tooDeep exit))
include h

theorem exhausted_of_tooDeep : Exhausted exit ts := by
  intro more hmore
  obtain ⟨c, hc, -⟩ := onTokens_of_stands hts h
    fun l hl ↦ Cursor.begins_terminals_ofTokens (hmore l hl)
  exact ⟨c.peek, hc⟩

theorem viable_append_of_exit {l : ListEnd} (hl : l ∈ exit) :
    Viable (ts ++ [(symbol l.lexeme).token]) := by
  obtain rfl := Option.mem_def.1 hl
  obtain ⟨us, hus, hhead⟩ := h.mends rfl
  -- the end of the list comes first in what completes the tokens
  obtain ⟨us, rfl⟩ := List.head?_eq_some_iff.1 (hhead (.inr id))
  obtain ⟨e, he⟩ := onTokens_of_completes hts hus
  refine ⟨us.map Terminal.token, e, ?_⟩
  rw [List.append_assoc]
  exact he

end Failure

/-! ## What an error tells -/

/-- What an error at a cursor tells of the streams that begin in the same way. -/
structure FirstOffence (e : ParseError) (c : Cursor) : Prop where
  /-- The error names the token at the cursor. -/
  token : e.token? = some c.peek ∧ c.stream[c.offset]? = some c.peek
  /-- The tokens before it can be continued. -/
  viable : (∀ t, e ≠ .nestingTooDeep t) → Viable (c.stream.take c.offset)
  /-- With it they cannot, and any stream that begins with them is refused in the same way. -/
  refused : (∀ t, e ≠ .nestingTooDeep t) → c.peek.isEof = false →
    ∀ more, whole.onTokens (c.stream.take (c.offset + 1) ++ more) = .error e
  /-- If there are too many levels, nothing can help but the end of an empty list. -/
  exhausted : ∀ t, e = .nestingTooDeep t → ∃ exit, Exhausted exit (c.stream.take c.offset) ∧
    ∀ l ∈ exit, ∃ t, t.spells l.lexeme = true ∧ Viable (c.stream.take c.offset ++ [t])

/-- A stream that is not an expression is refused at the first token that is wrong. -/
theorem error_at_first_offence {ts : List Token} {e : ParseError} {c : Cursor}
    (h : whole.outcome (Cursor.ofTokens ts) = (.error e, c)) :
    c.stream = (Cursor.ofTokens ts).stream ∧ FirstOffence e c := by
  have hwhole : whole (Cursor.ofTokens ts) = .error e c := by
    cases hr : whole (Cursor.ofTokens ts) with
    | ok a c₁ => cases (outcome_of_ok hr).symm.trans h
    | error e₁ c₁ =>
      cases (outcome_of_error hr).symm.trans h
      rfl
  obtain ⟨hstream, why, rfl, hfail⟩ := failure_of_whole hwhole
  have hbehind : ∀ t ∈ c.behind.reverse, t.isEof = false := Cursor.isEof_of_mem_behind
  refine ⟨hstream, ⟨?_, c.getElem?_offset_stream⟩, fun hne ↦ ?_, fun hne heof more ↦ ?_,
    fun t ht ↦ ?_⟩
  · cases why <;> rfl
  · rw [c.take_offset_stream]
    cases why with
    | unexpected | expected => exact viable_of_remedy hbehind rfl hfail
    | tooDeep => exact absurd rfl (hne _)
  · have hterminals := Cursor.terminals_of_kind_ne_eof (of_decide_eq_false heof)
    rw [c.take_offset_succ_stream, List.append_assoc]
    refine onTokens_of_same_token hbehind hfail heof (by rw [hterminals]; rfl) ?_
    rintro exit rfl
    exact hne _ rfl
  · rw [c.take_offset_stream]
    cases why with
    | unexpected | expected => cases ht
    | tooDeep exit =>
      exact ⟨exit, exhausted_of_tooDeep hbehind hfail, fun l hl ↦ ⟨(symbol l.lexeme).token,
        decide_eq_true rfl, viable_append_of_exit hbehind hfail hl⟩⟩

/-- In `(a b` the second name is wrong, because a parenthesis has to come first. -/
theorem error_at_second_name :
    let ts : List Token := [⟨.symbol, "(", Position.start⟩, ⟨.identifier, "a", Position.start⟩,
      ⟨.identifier, "b", Position.start⟩]
    let e : ParseError := .expectedToken ")" ⟨.identifier, "b", Position.start⟩
    let c : Cursor := (whole.outcome (Cursor.ofTokens ts)).2
    whole.outcome (Cursor.ofTokens ts) = (.error e, c) ∧ c.offset = 2 ∧ FirstOffence e c := by
  intro ts e c
  have h : whole.outcome (Cursor.ofTokens ts) = (.error e, c) := rfl
  exact ⟨h, rfl, (error_at_first_offence h).2⟩

/-- After opening brackets for all the levels there may be, a name opens one too many, and still a
closing bracket may follow. -/
theorem not_refused_after_brackets :
    ¬ ∀ (ts : List Token) (t : Token) (c : Cursor),
      whole.outcome (Cursor.ofTokens ts) = (.error (.nestingTooDeep t), c) →
        ∀ more e, whole.onTokens (c.stream.take c.offset ++ more) ≠ .ok e := by
  intro h
  let opening : List Token := List.replicate maxNesting ⟨.symbol, "[", Position.start⟩
  let closing : List Token := List.replicate maxNesting ⟨.symbol, "]", Position.start⟩
  let name : Token := ⟨.identifier, "a", Position.start⟩
  have hdeep : (match whole.outcome (Cursor.ofTokens (opening ++ [name])) with
    | (.error (.nestingTooDeep _), c) => decide (c.stream.take c.offset = opening)
    | _ => false) = true := by decide +kernel
  have hread : (whole.onTokens (opening ++ closing)).isOk = true := by decide +kernel
  split at hdeep
  · next t c houtcome =>
    cases he : whole.onTokens (opening ++ closing) with
    | ok e =>
      refine h _ t c houtcome closing e ?_
      rw [of_decide_eq_true hdeep, he]
    | error e =>
      rw [he] at hread
      cases hread
  · cases hdeep

end Reading

end TemplateExpr
