import TemplateExpr.Proofs.Derivation

/-!
# Two readings side by side

The grammar is the same whatever a reading does besides, and it sees of a stream only the kinds and
the texts of its tokens. So whatever two ways of reading have in common at the single steps they
have in common for whole productions, even if one of them reads another stream, as long as the
tokens of both look the same (`Translation`).

## Comparisons

A `Comparison` says what they have in common: a relation between computations, kept by looking at
the cursor, by passing a token, by failing because of the next token and by going on. Those are all
the steps there are, and each production is a program of them, so it is enough to follow the program
of each once. No use of a comparison opens a production again.

## Fewer tokens inside

The two productions by which a level refers to the next one are begun only after a token has been
passed. So they have to be related where fewer tokens are left, and nowhere else
(`Comparison.rel_expression`). That makes an induction on the tokens that are left out of any fact
about a level and the next one, and a comparison of unlimited levels with limited ones is possible
as well.
-/

namespace TemplateExpr

/-! ## Cursors and tokens -/

theorem Cursor.length_ahead_skip_lt {c : Cursor} (h : c.peek.isEof = false) :
    c.skip.ahead.length < c.ahead.length := by
  rw [isEof_peek] at h
  rw [ahead_skip, List.length_tail]
  have hne : c.ahead ≠ [] := by simpa using h
  have hpos := List.length_pos_iff.2 hne
  omega

theorem Cursor.isEof_peek_of_peekIs {c : Cursor} {lexeme : String} (h : c.peekIs lexeme = true) :
    c.peek.isEof = false := by
  rw [peekIs, Token.spells.eq_def] at h
  rw [Token.isEof]
  split at h <;> simp_all

theorem Cursor.length_ahead_skip_le (c : Cursor) : c.skip.ahead.length ≤ c.ahead.length := by
  rw [ahead_skip, List.length_tail]
  omega

/-- An error with its token changed. -/
def ParseError.mapToken (f : Token → Token) : ParseError → ParseError
  | unexpectedToken t => unexpectedToken (f t)
  | expectedToken expected t => expectedToken expected (f t)
  | nestingTooDeep t => nestingTooDeep (f t)
  | lex e => lex e

theorem ParseError.mapToken_id (e : ParseError) : e.mapToken id = e := by
  cases e <;> rfl

/-! ## Equations of single steps -/

section Equations

variable {m : Type → Type} [Monad m] [LawfulMonad m] [MonadStateOf Cursor m] {α : Type}

namespace Grammar

theorem peek_bind (f : Token → m α) : (peek >>= f) = get >>= fun c ↦ f c.peek := by
  simp [peek]

theorem tokensLeft_bind (f : Nat → m α) :
    (tokensLeft >>= f) = get >>= fun c ↦ f c.ahead.length := by
  simp [tokensLeft]

theorem accept_bind (lexeme : String) (f : Bool → m α) : (accept lexeme >>= f) =
    get >>= fun c ↦ if c.peekIs lexeme then skip >>= fun _ ↦ f true else f false := by
  simp only [accept, bind_assoc]
  congr 1
  funext c
  split <;> simp

end Grammar

end Equations

/-! ## Streams that look the same -/

/-- A change of streams in which every token keeps its kind and its text. -/
structure Translation where
  /-- What becomes of a token. -/
  token : Token → Token
  /-- What becomes of a place in a stream. -/
  cursor : Cursor → Cursor
  /-- The kind and the text of a token stay the same. -/
  terminal_token (t : Token) : (token t).terminal = t.terminal
  /-- The token at a place becomes the one at the other place. -/
  peek_cursor (c : Cursor) : (cursor c).peek = token c.peek
  /-- The place after a token becomes the place after the other one. -/
  skip_cursor (c : Cursor) : (cursor c).skip = cursor c.skip
  /-- There are as many tokens left. -/
  length_ahead_cursor (c : Cursor) : (cursor c).ahead.length = c.ahead.length

namespace Translation

def refl : Translation where
  token := id
  cursor := id
  terminal_token _ := rfl
  peek_cursor _ := rfl
  skip_cursor _ := rfl
  length_ahead_cursor _ := rfl

variable (φ : Translation)

theorem kind_token (t : Token) : (φ.token t).kind = t.kind :=
  congrArg Terminal.kind (φ.terminal_token t)

theorem text_token (t : Token) : (φ.token t).text = t.text :=
  congrArg Terminal.text (φ.terminal_token t)

theorem peekIs_cursor (c : Cursor) (lexeme : String) :
    (φ.cursor c).peekIs lexeme = c.peekIs lexeme := by
  rw [Cursor.peekIs, Cursor.peekIs, φ.peek_cursor, ← Terminal.spells_terminal, φ.terminal_token,
    Terminal.spells_terminal]

theorem hasMore_cursor (c : Cursor) : (φ.cursor c).hasMore = c.hasMore := by
  rw [Cursor.hasMore, Cursor.hasMore, φ.peek_cursor, Token.isEof, Token.isEof, φ.kind_token]

theorem operatorAt?_cursor (operators : List (String × BinaryOp)) (c : Cursor) :
    Grammar.operatorAt? operators (φ.cursor c) = Grammar.operatorAt? operators c := by
  simp only [Grammar.operatorAt?, φ.peekIs_cursor]

end Translation

/-! ## Comparisons -/

/-- What two ways of reading have in common, whatever they read, if the second of them reads the
translation of what the first one reads. -/
structure Comparison (φ : Translation) (m m' : Type → Type) [Monad m] [MonadStateOf Cursor m]
    [MonadExceptOf ParseError m] [Monad m'] [MonadStateOf Cursor m']
    [MonadExceptOf ParseError m'] where
  /-- Two computations have it in common if the first is begun at a cursor. -/
  Rel {α : Type} : Cursor → m α → m' α → Prop
  /-- Nothing is done. -/
  rel_pure {α : Type} (c : Cursor) (a : α) : Rel c (pure a) (pure a)
  /-- One thing is done after another; tokens may have been passed in between. -/
  rel_bind {α β : Type} {c : Cursor} {x : m α} {x' : m' α} {f : α → m β} {f' : α → m' β}
    (head : Rel c x x') (tail : ∀ a c', c'.ahead.length ≤ c.ahead.length → Rel c' (f a) (f' a)) :
    Rel c (x >>= f) (x' >>= f')
  /-- The cursor is looked at. -/
  rel_get {α : Type} {c : Cursor} {f : Cursor → m α} {f' : Cursor → m' α}
    (tail : Rel c (f c) (f' (φ.cursor c))) : Rel c (get >>= f) (get >>= f')
  /-- A token is passed. -/
  rel_skip {α : Type} {c : Cursor} {f : Unit → m α} {f' : Unit → m' α}
    (tail : Rel c.skip (f ()) (f' ())) : Rel c (Grammar.skip >>= f) (Grammar.skip >>= f')
  /-- The reading fails because of the token at the cursor. -/
  rel_throw {α : Type} {c : Cursor} {e : ParseError} (h : e.token? = some c.peek) :
    Rel c (throw e : m α) (throw (e.mapToken φ.token) : m' α)

namespace Comparison

variable {m m' : Type → Type} [Monad m] [LawfulMonad m] [MonadStateOf Cursor m]
  [MonadExceptOf ParseError m] [Monad m'] [LawfulMonad m'] [MonadStateOf Cursor m']
  [MonadExceptOf ParseError m'] {φ : Translation} (s : Comparison φ m m') {α : Type} {c : Cursor}

/-! ### Single tokens -/

theorem rel_peek {f : Token → m α} {f' : Token → m' α}
    (h : s.Rel c (f c.peek) (f' (φ.token c.peek))) :
    s.Rel c (Grammar.peek >>= f) (Grammar.peek >>= f') := by
  rw [Grammar.peek_bind, Grammar.peek_bind]
  refine s.rel_get ?_
  rwa [φ.peek_cursor]

theorem rel_tokensLeft {f : Nat → m α} {f' : Nat → m' α}
    (h : s.Rel c (f c.ahead.length) (f' c.ahead.length)) :
    s.Rel c (Grammar.tokensLeft >>= f) (Grammar.tokensLeft >>= f') := by
  rw [Grammar.tokensLeft_bind, Grammar.tokensLeft_bind]
  refine s.rel_get ?_
  rwa [φ.length_ahead_cursor]

theorem rel_accept {lexeme : String} {f : Bool → m α} {f' : Bool → m' α}
    (htrue : c.skip.ahead.length < c.ahead.length → s.Rel c.skip (f true) (f' true))
    (hfalse : s.Rel c (f false) (f' false)) :
    s.Rel c (Grammar.accept lexeme >>= f) (Grammar.accept lexeme >>= f') := by
  rw [Grammar.accept_bind, Grammar.accept_bind]
  refine s.rel_get ?_
  rw [φ.peekIs_cursor]
  by_cases h : c.peekIs lexeme = true
  · rw [if_pos h, if_pos h]
    exact s.rel_skip (htrue (Cursor.length_ahead_skip_lt (Cursor.isEof_peek_of_peekIs h)))
  · rw [if_neg h, if_neg h]
    exact hfalse

theorem rel_expect (lexeme : String) :
    s.Rel c (Grammar.expect lexeme : m Unit) (Grammar.expect lexeme : m' Unit) := by
  refine s.rel_get ?_
  rw [φ.peekIs_cursor]
  by_cases h : c.peekIs lexeme = true
  · rw [if_pos h, if_pos h, ← bind_pure (Grammar.skip : m Unit),
      ← bind_pure (Grammar.skip : m' Unit)]
    exact s.rel_skip (s.rel_pure _ ())
  · rw [if_neg h, if_neg h]
    exact s.rel_peek (s.rel_throw (e := .expectedToken lexeme c.peek) rfl)

theorem rel_finish : s.Rel c (Grammar.finish : m Unit) (Grammar.finish : m' Unit) := by
  refine s.rel_get ?_
  rw [φ.hasMore_cursor]
  by_cases h : c.hasMore = true
  · rw [if_pos h, if_pos h]
    exact s.rel_peek (s.rel_throw (e := .unexpectedToken c.peek) rfl)
  · rw [if_neg h, if_neg h]
    exact s.rel_pure c ()

theorem rel_unexpected : s.Rel c (Grammar.unexpected : m Expr) (Grammar.unexpected : m' Expr) :=
  s.rel_peek (s.rel_throw (e := .unexpectedToken c.peek) rfl)

theorem rel_tooDeep : s.Rel c (Grammar.tooDeep : m Expr) (Grammar.tooDeep : m' Expr) :=
  s.rel_peek (s.rel_throw (e := .nestingTooDeep c.peek) rfl)

/-! ### Productions -/

/-- Two computations are related wherever fewer than `n` tokens are left. -/
def Below (n : Nat) (x : m α) (x' : m' α) : Prop := ∀ c, c.ahead.length < n → s.Rel c x x'

variable {s} {n : Nat} {e : m Expr} {e' : m' Expr}

section List

variable (h : s.Below n e e')
include h

theorem rel_listRest (hc : c.ahead.length ≤ n) (bound : Nat) :
    s.Rel c (Grammar.listRest e bound) (Grammar.listRest e' bound) := by
  induction bound generalizing c with
  | zero => exact s.rel_pure c []
  | succ bound ih =>
    refine s.rel_accept (fun hlt ↦ ?_) (s.rel_pure c [])
    refine s.rel_bind (h _ (by omega)) fun a c₁ hc₁ ↦ ?_
    exact s.rel_bind (ih (by omega)) fun as c₂ _ ↦ s.rel_pure c₂ (a :: as)

theorem rel_list (hc : c.ahead.length < n) :
    s.Rel c (Grammar.list e) (Grammar.list e') := by
  refine s.rel_bind (h c hc) fun a c₁ hc₁ ↦ s.rel_tokensLeft ?_
  exact s.rel_bind (rel_listRest h (by omega) _) fun as c₂ _ ↦ s.rel_pure c₂ (a :: as)

theorem rel_arguments (hc : c.ahead.length < n) :
    s.Rel c (Grammar.arguments e) (Grammar.arguments e') := by
  have hclose : ∀ (as : List Expr) (c₁ : Cursor), s.Rel c₁
      (Grammar.expect ")" >>= fun _ ↦ pure as : m (List Expr))
      (Grammar.expect ")" >>= fun _ ↦ pure as : m' (List Expr)) :=
    fun as c₁ ↦ s.rel_bind (s.rel_expect ")") fun _ c₂ _ ↦ s.rel_pure c₂ as
  refine s.rel_get ?_
  rw [φ.peekIs_cursor]
  by_cases hp : c.peekIs ")" = true
  · rw [if_pos hp, if_pos hp]
    exact s.rel_bind (s.rel_pure c []) fun as c₁ _ ↦ hclose as c₁
  · rw [if_neg hp, if_neg hp]
    exact s.rel_bind (rel_list h hc) fun as c₁ _ ↦ hclose as c₁

theorem rel_elements (hc : c.ahead.length < n) (bound : Nat) :
    s.Rel c (Grammar.elements e bound) (Grammar.elements e' bound) := by
  induction bound generalizing c with
  | zero => exact s.rel_bind (h c hc) fun a c₁ _ ↦ s.rel_pure c₁ [a]
  | succ bound ih =>
    refine s.rel_accept (fun _ ↦ s.rel_pure _ []) (s.rel_bind (h c hc) fun a c₁ hc₁ ↦ ?_)
    have hrest : ∀ c₂ : Cursor, c₂.ahead.length ≤ c₁.ahead.length →
        s.Rel c₂ (Grammar.elements e bound >>= fun as ↦ pure (a :: as))
          (Grammar.elements e' bound >>= fun as ↦ pure (a :: as)) := by
      intro c₂ hc₂
      exact s.rel_bind (ih (by omega)) fun as c₃ _ ↦ s.rel_pure c₃ (a :: as)
    refine s.rel_accept (fun _ ↦ s.rel_pure _ [a]) ?_
    exact s.rel_accept (fun hlt ↦ hrest _ (by omega)) (hrest c₁ le_rfl)

theorem rel_suffixes (hc : c.ahead.length ≤ n) (bound : Nat) (a : Expr) :
    s.Rel c (Grammar.suffixes e bound a) (Grammar.suffixes e' bound a) := by
  induction bound generalizing c a with
  | zero => exact s.rel_pure c a
  | succ bound ih =>
    refine s.rel_accept (fun hlt ↦ ?_) (s.rel_accept (fun hlt ↦ ?_) (s.rel_pure c a))
    · exact s.rel_bind (rel_arguments h (by omega)) fun as c₁ hc₁ ↦ ih (by omega) _
    · have hskip := c.skip.length_ahead_skip_le
      refine s.rel_peek ?_
      rw [φ.text_token]
      refine s.rel_skip (s.rel_accept (fun hlt' ↦ ?_) ?_)
      · exact s.rel_bind (rel_arguments h (by omega)) fun as c₁ hc₁ ↦ ih (by omega) _
      · exact s.rel_bind (s.rel_pure _ []) fun as c₁ hc₁ ↦ ih (by omega) _

end List

omit [LawfulMonad m] [LawfulMonad m'] in
theorem rel_chainRest (operators : List (String × BinaryOp))
    (h : ∀ c : Cursor, c.ahead.length ≤ n → s.Rel c e e') (hc : c.ahead.length ≤ n) (bound : Nat)
    (left : Expr) : s.Rel c (Grammar.chainRest operators e bound left)
      (Grammar.chainRest operators e' bound left) := by
  induction bound generalizing c left with
  | zero => exact s.rel_pure c left
  | succ bound ih =>
    refine s.rel_get ?_
    rw [φ.operatorAt?_cursor]
    cases Grammar.operatorAt? operators c with
    | none => exact s.rel_pure c left
    | some op =>
      have hskip := c.length_ahead_skip_le
      refine s.rel_skip (s.rel_bind (h _ (by omega)) fun right c₁ hc₁ ↦ ?_)
      exact ih (by omega) _

theorem rel_binary (h : ∀ c : Cursor, c.ahead.length ≤ n → s.Rel c e e')
    (hc : c.ahead.length ≤ n) : s.Rel c (Grammar.binary e) (Grammar.binary e') := by
  have hchains : ∀ (levels : List (List (String × BinaryOp))) (c : Cursor), c.ahead.length ≤ n →
      s.Rel c (levels.foldr Grammar.chain e) (levels.foldr Grammar.chain e') := by
    intro levels
    induction levels with
    | nil => exact h
    | cons operators tighter ih =>
      intro c hc
      refine s.rel_bind (ih c hc) fun left c₁ hc₁ ↦ s.rel_tokensLeft ?_
      exact rel_chainRest operators ih (by omega) _ left
  exact hchains _ c hc

/-! ### Levels -/

variable {inner : Grammar.Nested m} {inner' : Grammar.Nested m'}

/-- The productions of two levels are related wherever fewer than `n` tokens are left. -/
structure NestedBelow (s : Comparison φ m m') (n : Nat) (inner : Grammar.Nested m)
    (inner' : Grammar.Nested m') : Prop where
  /-- The expressions are related. -/
  expression : s.Below n inner.expression inner'.expression
  /-- The operands are related. -/
  operand : s.Below n inner.operand inner'.operand

section Level

variable (h : s.NestedBelow n inner inner') (hc : c.ahead.length ≤ n)
include h hc

theorem rel_simpleOperand : s.Rel c (Grammar.simpleOperand inner.operand)
    (Grammar.simpleOperand inner'.operand) := by
  refine s.rel_peek ?_
  rw [φ.kind_token, φ.text_token]
  cases hkind : c.peek.kind with
  | symbol =>
    cases UnaryOp.ofSpelling? c.peek.text with
    | none => exact s.rel_unexpected
    | some op =>
      have hlt := Cursor.length_ahead_skip_lt (c := c) (by simp [Token.isEof, hkind])
      refine s.rel_skip (s.rel_bind (h.operand _ (by omega)) fun a c₁ _ ↦ ?_)
      exact s.rel_pure c₁ (Expr.unary op a)
  | number =>
    cases Literal.ofNumber? c.peek.text.toList with
    | none => exact s.rel_unexpected
    | some v => exact s.rel_skip (s.rel_pure _ (Expr.literal v))
  | string => exact s.rel_skip (s.rel_pure _ (Expr.string c.peek.text))
  | identifier => exact s.rel_skip (s.rel_pure _ (Grammar.word c.peek.text))
  | eof => exact s.rel_unexpected

theorem rel_operand : s.Rel c (Grammar.operand inner) (Grammar.operand inner') := by
  refine s.rel_accept (fun hlt ↦ ?_) (s.rel_accept (fun hlt ↦ ?_) (rel_simpleOperand h hc))
  · refine s.rel_bind (h.expression _ (by omega)) fun a c₁ _ ↦ ?_
    exact s.rel_bind (s.rel_expect ")") fun _ c₂ _ ↦ s.rel_pure c₂ a
  · refine s.rel_tokensLeft (s.rel_bind (rel_elements h.expression (by omega) _) ?_)
    exact fun as c₁ _ ↦ s.rel_pure c₁ (Expr.array as)

theorem rel_ternary : s.Rel c (Grammar.ternary inner) (Grammar.ternary inner') := by
  have hoperand : ∀ c : Cursor, c.ahead.length ≤ n →
      s.Rel c (Grammar.operand inner) (Grammar.operand inner') := fun c hc ↦ rel_operand h hc
  refine s.rel_bind (rel_binary hoperand hc) fun condition c₁ hc₁ ↦ ?_
  refine s.rel_accept (fun hlt ↦ ?_) (s.rel_pure c₁ condition)
  refine s.rel_bind (h.expression _ (by omega)) fun a c₂ hc₂ ↦ ?_
  refine s.rel_bind (s.rel_expect ":") fun _ c₃ hc₃ ↦ ?_
  refine s.rel_bind (h.expression _ (by omega)) fun b c₄ _ ↦ ?_
  exact s.rel_pure c₄ (Expr.ternary condition a b)

theorem rel_expression : s.Rel c (Grammar.expression inner) (Grammar.expression inner') := by
  refine s.rel_bind (rel_ternary h hc) fun a c₁ hc₁ ↦ s.rel_tokensLeft ?_
  exact rel_suffixes h.expression (by omega) _ a

end Level

/-! ### All limits -/

/-- The productions within a limit are related to themselves. -/
theorem nestedBelow_within (s : Comparison φ m m') (limit n : Nat) :
    s.NestedBelow n (Grammar.within limit) (Grammar.within limit) := by
  induction limit generalizing n with
  | zero => exact ⟨fun _ _ ↦ s.rel_tooDeep, fun _ _ ↦ s.rel_tooDeep⟩
  | succ limit ih =>
    exact ⟨fun _ _ ↦ rel_expression (ih _) le_rfl, fun _ _ ↦ rel_operand (ih _) le_rfl⟩

theorem rel_within (s : Comparison φ m m') (limit : Nat) (c : Cursor) :
    s.Rel c (Grammar.within limit).expression (Grammar.within limit).expression :=
  (s.nestedBelow_within limit _).expression c (Nat.lt_succ_self _)

end Comparison

end TemplateExpr
