import TemplateExpr.Proofs.Completeness
import TemplateExpr.Proofs.Context
import TemplateExpr.Proofs.Soundness

/-!
# Reading recognises the grammar

A stream of tokens is read as an expression exactly when the grammar derives the expression from the
whole of it with no more levels than there may be (`onTokens_whole_eq_ok_iff`). One direction is
that reading is sound, the other that it is complete; here they are put together for whole streams.

## The end token

What makes the two sides meet is the end token: a filter whose pipe ends the stream is named by the
text of the end token, so the stream is read although its last filter has no token for a name. The
derivation is given that text, and it is used nowhere else. Without it the grammar derives less than
is read (`onTokens_whole_of_pipe_at_end`).

## Whole streams

A derivation says what is left over, and a whole stream is one of which nothing is left. Reading
finds that out by looking for the end token after the expression, so a stream with tokens left is
refused at the first of them.
-/

namespace TemplateExpr

namespace Reading

variable {α : Type}

/-! ## Outcomes -/

theorem outcome_of_ok {r : Reading α} {c c' : Cursor} {a : α} (h : r c = .ok a c') :
    r.outcome c = (.ok a, c') := by
  rw [outcome, EStateM.run, h]

theorem outcome_of_error {r : Reading α} {c c' : Cursor} {e : ParseError}
    (h : r c = .error e c') : r.outcome c = (.error e, c') := by
  rw [outcome, EStateM.run, h]

theorem eq_ok_of_outcome {r : Reading α} {c c' : Cursor} {a : α}
    (h : r.outcome c = (.ok a, c')) : r c = .ok a c' := by
  cases hr : r c with
  | ok a₁ c₁ =>
    cases (outcome_of_ok hr).symm.trans h
    rfl
  | error e c₁ => cases (outcome_of_error hr).symm.trans h

/-! ## Nothing left over -/

theorem toEnd_of_ok {r : Reading α} {c c' : Cursor} {a : α} (h : r c = .ok a c')
    (hend : c'.terminals = []) : toEnd r c = .ok a c' := by
  have hfinish : (Grammar.finish : Reading Unit) c' = .ok () c' := by
    rw [finish_apply, if_neg]
    rw [Cursor.hasMore_eq_true_iff, ne_eq, Decidable.not_not]
    exact List.map_eq_nil_iff.1 hend
  rw [toEnd, bind_of_ok h, bind_of_ok hfinish]
  rfl

theorem toEnd_of_left {r : Reading α} {c c' : Cursor} {a : α} (h : r c = .ok a c')
    (hleft : c'.terminals ≠ []) : toEnd r c = .error (.unexpectedToken c'.peek) c' := by
  have hfinish : (Grammar.finish : Reading Unit) c' = .error (.unexpectedToken c'.peek) c' := by
    rw [finish_apply, if_pos]
    exact Cursor.hasMore_eq_true_iff.2 fun hnil ↦ hleft (List.map_eq_nil_iff.2 hnil)
  rw [toEnd, bind_of_ok h, bind_of_error hfinish]

theorem of_toEnd_eq_ok {r : Reading α} {c c' : Cursor} {a : α} (h : toEnd r c = .ok a c') :
    r c = .ok a c' ∧ c'.terminals = [] := by
  obtain ⟨b, c₁, h₁, h⟩ := of_bind_eq_ok h
  obtain ⟨_, c₂, h₂, h⟩ := of_bind_eq_ok h
  obtain ⟨rfl, rfl⟩ := of_pure_eq_ok h
  rw [finish_apply] at h₂
  split at h₂
  · cases h₂
  · next hmore =>
    cases h₂
    rw [Cursor.hasMore_eq_true_iff, ne_eq, Decidable.not_not] at hmore
    exact ⟨h₁, by rw [Cursor.terminals, hmore, List.map_nil]⟩

theorem of_onTokens_eq_ok {r : Reading α} {ts : List Token} {a : α} (h : r.onTokens ts = .ok a) :
    ∃ c, r (Cursor.ofTokens ts) = .ok a c := by
  cases hr : r (Cursor.ofTokens ts) with
  | error e c =>
    rw [onTokens, outcome_of_error hr] at h
    cases h
  | ok a' c =>
    rw [onTokens, outcome_of_ok hr] at h
    cases h
    exact ⟨c, rfl⟩

theorem of_onTokens_eq_error {r : Reading α} {ts : List Token} {e : ParseError}
    (h : r.onTokens ts = .error e) : ∃ c, r (Cursor.ofTokens ts) = .error e c := by
  cases hr : r (Cursor.ofTokens ts) with
  | ok a c =>
    rw [onTokens, outcome_of_ok hr] at h
    cases h
  | error e' c =>
    rw [onTokens, outcome_of_error hr] at h
    cases h
    exact ⟨c, rfl⟩

/-! ## Derivations of whole streams -/

/-- A whole stream that is read as an expression is derived, within the limit. -/
theorem derives_of_onTokens_whole {ts : List Token} {e : Expr} (h : whole.onTokens ts = .ok e) :
    ∃ d ≤ maxNesting, Derives (some (Cursor.stopOf ts).text) d (.expression e)
      (Cursor.ofTokens ts).terminals [] := by
  obtain ⟨c, hr⟩ := of_onTokens_eq_ok h
  obtain ⟨hr, hend⟩ := of_toEnd_eq_ok hr
  obtain ⟨-, d, hd, hder⟩ := (sound_within _ maxNesting).expression rfl hr
  exact ⟨d, Nat.le_of_lt_succ hd, hend ▸ hder⟩

theorem onTokens_whole_of_derives {ts : List Token} {d : Nat} {e : Expr}
    (h : Derives (some (Cursor.stopOf ts).text) d (.expression e)
      (Cursor.ofTokens ts).terminals []) (hd : d ≤ maxNesting) : whole.onTokens ts = .ok e := by
  obtain ⟨c, hc, -, hend⟩ :=
    ((complete_within (Cursor.stopOf ts) maxNesting).expression (c := Cursor.ofTokens ts) rfl
      h).ok (Nat.lt_succ_of_le hd)
  have hwhole : whole (Cursor.ofTokens ts) = .ok e c := toEnd_of_ok hc hend
  rw [onTokens, outcome_of_ok hwhole]

/-- A whole stream that is derived is refused for nothing but its levels. -/
theorem onTokens_whole_of_maxNesting_lt {ts : List Token} {d : Nat} {e : Expr}
    (h : Derives (some (Cursor.stopOf ts).text) d (.expression e)
      (Cursor.ofTokens ts).terminals []) (hd : maxNesting < d) :
    ∃ t, whole.onTokens ts = .error (.nestingTooDeep t) := by
  obtain ⟨t, c, hc⟩ := ((complete_within (Cursor.stopOf ts) maxNesting).expression
    (c := Cursor.ofTokens ts) rfl h).tooDeep hd
  have hwhole : whole (Cursor.ofTokens ts) = .error (.nestingTooDeep t) c := bind_of_error hc
  exact ⟨t, by rw [onTokens, outcome_of_error hwhole]⟩

/-! ## Recognition -/

/-- A list of tokens is read as an expression exactly when the expression is derived from the tokens
before the first end token, with no more levels open at once than there may be. -/
theorem onTokens_whole_eq_ok_iff (ts : List Token) (e : Expr) :
    whole.onTokens ts = .ok e ↔
      ∃ d ≤ maxNesting, Derives (some (Cursor.stopOf ts).text) d (.expression e)
        ((ts.takeWhile (!·.isEof)).map Token.terminal) [] := by
  constructor
  · exact derives_of_onTokens_whole
  · rintro ⟨d, hd, h⟩
    exact onTokens_whole_of_derives h hd

/-- A pipe at the end of the tokens makes a filter although there is no token for its name, so the
grammar in which the name is a token does not derive all that is read. -/
theorem onTokens_whole_of_pipe_at_end :
    ¬ ∀ (ts : List Token) (e : Expr), whole.onTokens ts = .ok e ↔
      ∃ d ≤ maxNesting, Derives none d (.expression e)
        ((ts.takeWhile (!·.isEof)).map Token.terminal) [] := by
  intro hiff
  let name : Token := ⟨.identifier, "a", Position.start⟩
  let pipe : Token := ⟨.symbol, "|", Position.start⟩
  have hread : whole.onTokens [name, pipe] = .ok (.filter "" [.name "a"]) := rfl
  obtain ⟨d, hd, hder⟩ := (hiff _ _).1 hread
  -- another end token would name the same filter otherwise
  let stop : Token := ⟨.eof, "b", Position.start⟩
  have hread' : whole.onTokens [name, pipe, stop] = .ok (.filter "b" [.name "a"]) := rfl
  have hread'' : whole.onTokens [name, pipe, stop] = .ok (.filter "" [.name "a"]) :=
    onTokens_whole_of_derives hder.mono hd
  injection hread'.symm.trans hread'' with hfilter
  injection hfilter with hname
  exact absurd hname (by decide)

end Reading

end TemplateExpr
