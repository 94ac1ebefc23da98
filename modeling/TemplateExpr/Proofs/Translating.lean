import TemplateExpr.Proofs.ErrorPlace

/-!
# Reading what looks the same

A reading of a translated stream comes to the translation of what it comes to, and it stops where it
stops (`Reading.translates_expression` and the statements after it). Nothing but the kinds and the
texts of the tokens that are left has a part in it.

## Translations

In a translated stream every token is replaced by one that looks the same, and some tokens may stand
before it (`Translation.replacing`). The places of the tokens may be others, and so may be what has
been passed, but every look at the next token has the same answer.

## Errors

A reading that fails leaves its cursor at the token that its error holds, because no production
passes a token before it complains of it (`Reading.Translates.token_of_outcome`). That is shown here
along with the rest, since it is kept by the same steps.
-/

namespace TemplateExpr

/-! ## Replacing tokens and adding some before -/

theorem Cursor.eq_of_parts {c c' : Cursor} (behind : c.behind = c'.behind)
    (ahead : c.ahead = c'.ahead) (stop : c.stop = c'.stop) : c = c' := by
  cases c
  cases c'
  cases behind
  cases ahead
  cases stop
  rfl

theorem Token.isEof_of_terminal_eq {t t' : Token} (h : t'.terminal = t.terminal) :
    t'.isEof = t.isEof := by
  have hkind : t'.kind = t.kind := congrArg Terminal.kind h
  rw [isEof, isEof, hkind]

section Replacing

variable (f : Token → Token) (hf : ∀ t, (f t).terminal = t.terminal) (before : List Token)
  (hbefore : ∀ t ∈ before, t.isEof = false)

/-- A place in a stream in which every token is replaced by one that looks the same and before which
some tokens are put. -/
def Cursor.replace (c : Cursor) : Cursor where
  behind := c.behind.map f ++ before
  ahead := c.ahead.map f
  stop := f c.stop
  isEof_stop := (Token.isEof_of_terminal_eq (hf c.stop)).trans c.isEof_stop
  isEof_of_mem := by
    have hc : ∀ t ∈ c.behind ++ c.ahead, (f t).isEof = false :=
      fun t ht ↦ (Token.isEof_of_terminal_eq (hf t)).trans (c.isEof_of_mem t ht)
    simp only [List.forall_mem_append, List.forall_mem_map] at hc ⊢
    exact ⟨⟨hc.1, hbefore⟩, hc.2⟩

theorem Cursor.peek_replace (c : Cursor) : (c.replace f hf before hbefore).peek = f c.peek := by
  obtain ⟨behind, ahead, stop, _, _⟩ := c
  cases ahead <;> rfl

theorem Cursor.skip_replace (c : Cursor) :
    (c.replace f hf before hbefore).skip = c.skip.replace f hf before hbefore := by
  cases hc : c.ahead with
  | nil =>
    rw [skip_of_ahead_eq_nil hc, skip_of_ahead_eq_nil]
    exact congrArg (List.map f) hc
  | cons t ts =>
    apply eq_of_parts
    · have hcons : (c.replace f hf before hbefore).ahead = f t :: ts.map f :=
        congrArg (List.map f) hc
      have hbehind : (c.skip.replace f hf before hbefore).behind =
        c.skip.behind.map f ++ before := rfl
      rw [behind_skip_of_ahead_eq_cons hcons, hbehind, behind_skip_of_ahead_eq_cons hc]
      rfl
    · have hahead : (c.skip.replace f hf before hbefore).ahead = c.skip.ahead.map f := rfl
      rw [ahead_skip, hahead, ahead_skip, List.map_tail]
      rfl
    · have hstop : (c.skip.replace f hf before hbefore).stop = f c.skip.stop := rfl
      rw [stop_skip, hstop, stop_skip]
      rfl

/-- Every token is replaced by one that looks the same, and some tokens are put before the
stream. -/
def Translation.replacing : Translation where
  token := f
  cursor := Cursor.replace f hf before hbefore
  terminal_token := hf
  peek_cursor := Cursor.peek_replace f hf before hbefore
  skip_cursor := Cursor.skip_replace f hf before hbefore
  length_ahead_cursor _ := List.length_map f

end Replacing

namespace Translation

variable {α : Type}

/-! ## Results -/

/-- A result with its tokens and its cursor translated. -/
def result (φ : Translation) :
    EStateM.Result ParseError Cursor α → EStateM.Result ParseError Cursor α
  | .ok a c => .ok a (φ.cursor c)
  | .error e c => .error (e.mapToken φ.token) (φ.cursor c)

end Translation

namespace Reading

variable {α β : Type} {φ : Translation} {c : Cursor}

/-! ## Translated readings -/

/-- A reading comes to the translation of what another one comes to, if that is begun at a cursor
and the reading itself at its translation. The other one moves in its stream, and its error holds
the token at which it stops. -/
structure Translates (φ : Translation) (c : Cursor) (x x' : Reading α) : Prop where
  /-- One result is the translation of the other. -/
  result_eq : x' (φ.cursor c) = φ.result (x c)
  /-- The cursor is moved in the stream. -/
  moves : Moves c x
  /-- An error holds the token at the cursor that it leaves. -/
  token_eq {e : ParseError} {c' : Cursor} (h : x c = .error e c') : e.token? = some c'.peek

theorem translates_bind {x x' : Reading α} {f f' : α → Reading β} (head : Translates φ c x x')
    (tail : ∀ a c', c'.ahead.length ≤ c.ahead.length → Translates φ c' (f a) (f' a)) :
    Translates φ c (x >>= f) (x' >>= f') := by
  have hmoves := moves_bind head.moves fun a c' hc' ↦ (tail a c' hc').moves
  have hresult := head.result_eq
  cases hx : x c with
  | ok a c' =>
    rw [hx] at hresult
    have hle : c'.ahead.length ≤ c.ahead.length := by
      have hle := head.moves.2
      rwa [outcome_of_ok hx] at hle
    have htail := tail a c' hle
    refine ⟨?_, hmoves, fun {e c''} h ↦ htail.token_eq ?_⟩
    · rw [bind_of_ok hresult, bind_of_ok hx]
      exact htail.result_eq
    · rwa [bind_of_ok hx] at h
  | error e c' =>
    rw [hx] at hresult
    refine ⟨?_, hmoves, fun {e' c''} h ↦ ?_⟩
    · rw [bind_of_error hresult, bind_of_error hx]
      rfl
    · rw [bind_of_error hx] at h
      cases h
      exact head.token_eq hx

theorem translates_pure (c : Cursor) (a : α) : Translates φ c (pure a) (pure a) :=
  ⟨rfl, ⟨rfl, le_rfl⟩, nofun⟩

/-- Translation, as something that readings have in common. -/
def translating (φ : Translation) : Comparison φ Reading Reading where
  Rel := Translates φ
  rel_pure := translates_pure
  rel_bind := translates_bind
  rel_get tail := ⟨tail.result_eq, tail.moves, tail.token_eq⟩
  rel_skip {_ c f f'} tail := by
    have hmoves : moving.Rel c (Grammar.skip >>= f) (Grammar.skip >>= f') :=
      moving.rel_skip tail.moves
    refine ⟨?_, hmoves, tail.token_eq⟩
    show f' () (φ.cursor c).skip = _
    rw [φ.skip_cursor]
    exact tail.result_eq
  rel_throw h := by
    refine ⟨rfl, ⟨rfl, le_rfl⟩, fun heq ↦ ?_⟩
    cases heq
    exact h

/-! ## Productions -/

theorem translates_expression (φ : Translation) (c : Cursor) :
    Translates φ c expression expression :=
  (translating φ).rel_within maxNesting c

theorem translates_list (φ : Translation) (c : Cursor) : Translates φ c list list :=
  Comparison.rel_list (s := translating φ) (fun c _ ↦ translates_expression φ c)
    (Nat.lt_succ_self _)

theorem translates_finish (φ : Translation) (c : Cursor) :
    Translates φ c Grammar.finish Grammar.finish :=
  (translating φ).rel_finish

theorem translates_expect (φ : Translation) (c : Cursor) (lexeme : String) :
    Translates φ c (Grammar.expect lexeme) (Grammar.expect lexeme) :=
  (translating φ).rel_expect lexeme

theorem Translates.toEnd {x x' : Reading α} (h : Translates φ c x x') :
    Translates φ c (toEnd x) (toEnd x') := by
  refine translates_bind h fun a c' _ ↦ ?_
  exact translates_bind (translates_finish φ c') fun _ c'' _ ↦ translates_pure c'' a

/-! ## Outcomes -/

theorem Translates.outcome_eq {x x' : Reading α} (h : Translates φ c x x') :
    x'.outcome (φ.cursor c) =
      ((x.outcome c).1.mapError (·.mapToken φ.token), φ.cursor (x.outcome c).2) := by
  have hresult := h.result_eq
  cases hx : x c with
  | ok a c' =>
    rw [hx] at hresult
    rw [outcome_of_ok hx, outcome_of_ok hresult]
    rfl
  | error e c' =>
    rw [hx] at hresult
    rw [outcome_of_error hx, outcome_of_error hresult]
    rfl

/-- An error holds the token that the reading leaves. -/
theorem Translates.token_of_outcome {x x' : Reading α} (h : Translates φ c x x') {e : ParseError}
    (he : (x.outcome c).1 = .error e) : e.token? = some (x.outcome c).2.peek := by
  cases hx : x c with
  | ok a c' =>
    rw [outcome_of_ok hx] at he
    cases he
  | error e' c' =>
    rw [outcome_of_error hx] at he ⊢
    cases he
    exact h.token_eq hx

end Reading

end TemplateExpr
