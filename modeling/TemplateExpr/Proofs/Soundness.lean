import TemplateExpr.Proofs.Steps

/-!
# What is read is derived

Whatever a production reads off a cursor, the grammar derives from the terminals of the cursor
(`Reading.sound_within`).

## Strict bounds

The statement has a strict bound on the levels that a phrase opens itself. The productions of
`within limit` have the bounds `limit + 1`, for the expression, which opens a level where it begins,
and `limit`, for the operand of a prefix operator, whose level is opened on its behalf. The step
from one level to the next adds one to each, so the theorem on all limits is an induction in which
no limit is ever subtracted.

## Repetitions

That the bound of a repetition suffices is a hypothesis on the cursor. It is used once for each
repetition, where the bound is zero and no terminal is left. Everywhere else the bound and the
tokens that are left decrease together, because a round that is followed by another one has passed a
token.
-/

namespace TemplateExpr

open Terminal

namespace Reading

variable {α : Type}

variable {stop : Token} {bound : Nat} {c : Cursor}

/-! ## Sound productions -/

/-- What a reading makes of a cursor is derived, with fewer levels open at once than `bound`. -/
def Sound (stop : Token) (bound : Nat) (phrase : α → Phrase) (r : Reading α) (c : Cursor) : Prop :=
  ∀ {a c'}, r c = .ok a c' → c'.stop = stop ∧
    ∃ d < bound, Derives (some stop.text) d (phrase a) c.terminals c'.terminals

/-- Both productions of a level within which `limit` levels may be open are sound. -/
structure NestedSound (stop : Token) (limit : Nat) (inner : Grammar.Nested Reading) : Prop where
  expression : ∀ {c}, c.stop = stop →
    Sound stop (limit + 1) .expression inner.expression c
  operand : ∀ {c}, c.stop = stop → Sound stop limit .operand inner.operand c

/-! ## Simple operands -/

theorem sound_simpleOperand {r : Reading Expr} {limit : Nat} (hc : c.stop = stop)
    (hr : ∀ {c}, c.stop = stop → Sound stop limit .operand r c)
    (hparen : c.peekIs "(" = false) (hbracket : c.peekIs "[" = false) :
    Sound stop (limit + 1) .operand (Grammar.simpleOperand r) c := by
  intro e c' h
  rw [simpleOperand_apply] at h
  have hskip : c.skip.stop = stop := by rw [Cursor.stop_skip, hc]
  cases hkind : c.peek.kind with
  | symbol =>
    have hts := Cursor.terminals_of_kind_ne_eof (c := c) (by simp [hkind])
    cases hop : UnaryOp.ofSpelling? c.peek.text with
    | none => simp [hkind, hop] at h
    | some op =>
      simp only [hkind, hop] at h
      obtain ⟨a, c₁, h₁, h⟩ := of_bind_eq_ok h
      obtain ⟨rfl, rfl⟩ := of_pure_eq_ok h
      obtain ⟨hstop, d, hd, h₁⟩ := hr hskip h₁
      exact ⟨hstop, d + 1, by omega, hts ▸ .unary hkind hop h₁⟩
  | number =>
    have hts := Cursor.terminals_of_kind_ne_eof (c := c) (by simp [hkind])
    cases hv : Literal.ofNumber? c.peek.text.toList with
    | none => simp [hkind, hv] at h
    | some v =>
      simp only [hkind, hv] at h
      cases h
      exact ⟨hskip, 0, by omega, hts ▸ .number hkind hv⟩
  | string =>
    have hts := Cursor.terminals_of_kind_ne_eof (c := c) (by simp [hkind])
    simp only [hkind] at h
    cases h
    exact ⟨hskip, 0, by omega, hts ▸ .string (t := c.peek.terminal) hkind⟩
  | identifier =>
    have hts := Cursor.terminals_of_kind_ne_eof (c := c) (by simp [hkind])
    simp only [hkind] at h
    cases h
    rw [Cursor.peekIs_of_terminals hts] at hparen hbracket
    exact ⟨hskip, 0, by omega, hts ▸ .word hkind hparen hbracket⟩
  | eof => simp [hkind] at h

/-! ## Lists -/

theorem sound_listRest {r : Reading Expr} (hr : ∀ {c}, c.stop = stop →
    Sound stop (bound + 1) .expression r c) {n : Nat} (hc : c.stop = stop)
    (hn : c.ahead.length ≤ n) : Sound stop (bound + 1) .listRest (Grammar.listRest r n) c := by
  induction n generalizing c with
  | zero =>
    intro es c' h
    cases h
    rw [Cursor.terminals_eq_nil_of_length_le_zero hn]
    exact ⟨hc, 0, by omega, .listEnd rfl⟩
  | succ n ih =>
    intro es c' h
    cases hcomma : c.peekIs "," with
    | false =>
      rw [listRest_of_other hcomma] at h
      cases h
      rw [Cursor.peekIs_eq_begins] at hcomma
      exact ⟨hc, 0, by omega, .listEnd hcomma⟩
    | true =>
      rw [listRest_of_comma hcomma] at h
      obtain ⟨t, hts, ht⟩ := Cursor.terminals_of_peekIs hcomma
      obtain ⟨e, c₁, h₁, h⟩ := of_bind_eq_ok h
      obtain ⟨es', c₂, h₂, h⟩ := of_bind_eq_ok h
      obtain ⟨rfl, rfl⟩ := of_pure_eq_ok h
      obtain ⟨hstop, d, hd, h₁⟩ := hr (by rw [Cursor.stop_skip, hc]) h₁
      have hlen := h₁.length_ahead_lt rfl rfl rfl
      rw [Cursor.length_ahead_skip] at hlen
      obtain ⟨hstop', d', hd', h₂⟩ := ih hstop (by omega) h₂
      exact ⟨hstop', max d d', by omega, hts ▸ .listMore ht h₁ h₂⟩

theorem sound_list {r : Reading Expr} (hr : ∀ {c}, c.stop = stop →
    Sound stop (bound + 1) .expression r c) (hc : c.stop = stop) {es : List Expr} {c' : Cursor}
    (h : Grammar.list r c = .ok es c') : c'.stop = stop ∧ ∃ e es' us, es = e :: es' ∧
      (∃ d < bound + 1, Derives (some stop.text) d (.expression e) c.terminals us) ∧
      ∃ d < bound + 1, Derives (some stop.text) d (.listRest es') us c'.terminals := by
  obtain ⟨e, c₁, h₁, h⟩ := of_bind_eq_ok h
  obtain ⟨n, c₂, h₂, h⟩ := of_bind_eq_ok h
  cases h₂
  obtain ⟨es', c₃, h₃, h⟩ := of_bind_eq_ok h
  obtain ⟨rfl, rfl⟩ := of_pure_eq_ok h
  obtain ⟨hstop, hhead⟩ := hr hc h₁
  obtain ⟨hstop', htail⟩ := sound_listRest hr hstop (Nat.le_refl _) h₃
  exact ⟨hstop', e, es', _, rfl, hhead, htail⟩

theorem sound_arguments {r : Reading Expr} (hr : ∀ {c}, c.stop = stop →
    Sound stop (bound + 1) .expression r c) (hc : c.stop = stop) :
    Sound stop (bound + 1) .arguments (Grammar.arguments r) c := by
  intro es c' h
  cases hp : c.peekIs ")" with
  | true =>
    rw [arguments_of_parenthesis hp] at h
    cases h
    obtain ⟨t, hts, ht⟩ := Cursor.terminals_of_peekIs hp
    exact ⟨by rw [Cursor.stop_skip, hc], 0, by omega, hts ▸ .noArguments ht⟩
  | false =>
    rw [arguments_of_other hp] at h
    obtain ⟨es', c₁, h₁, h⟩ := of_bind_eq_ok h
    obtain ⟨_, c₂, h₂, h⟩ := of_bind_eq_ok h
    obtain ⟨rfl, rfl⟩ := of_pure_eq_ok h
    obtain ⟨hclose, rfl⟩ := of_expect_eq_ok h₂
    obtain ⟨hstop, e, es'', us, rfl, ⟨d, hd, hhead⟩, d', hd', htail⟩ := sound_list hr hc h₁
    obtain ⟨t, hts, ht⟩ := Cursor.terminals_of_peekIs hclose
    rw [hts] at htail
    rw [Cursor.peekIs_eq_begins] at hp
    exact ⟨by rw [Cursor.stop_skip, hstop], max d d', by omega, .someArguments hp hhead htail ht⟩

theorem sound_elements {r : Reading Expr} (hr : ∀ {c}, c.stop = stop →
    Sound stop (bound + 1) .expression r c) {n : Nat} (hc : c.stop = stop)
    (hn : c.ahead.length ≤ n) : Sound stop (bound + 1) .elements (Grammar.elements r n) c := by
  induction n generalizing c with
  | zero =>
    -- an element is read all the same, and there is none at the end of the stream
    intro es c' h
    obtain ⟨e, c₁, h₁, -⟩ := of_bind_eq_ok h
    obtain ⟨-, d, -, h₁⟩ := hr hc h₁
    exact absurd (Cursor.terminals_eq_nil_of_length_le_zero hn) (h₁.ne_nil_of_least rfl)
  | succ n ih =>
    intro es c' h
    cases hclose : c.peekIs "]" with
    | true =>
      rw [elements_of_bracket hclose] at h
      cases h
      obtain ⟨t, hts, ht⟩ := Cursor.terminals_of_peekIs hclose
      exact ⟨by rw [Cursor.stop_skip, hc], 0, by omega, hts ▸ .noElements ht⟩
    | false =>
      rw [elements_of_other hclose] at h
      rw [Cursor.peekIs_eq_begins] at hclose
      obtain ⟨e, c₁, h₁, h⟩ := of_bind_eq_ok h
      obtain ⟨hstop, d, hd, h₁⟩ := hr hc h₁
      have hlen := h₁.length_ahead_lt rfl rfl rfl
      cases hend : c₁.peekIs "]" with
      | true =>
        -- the array ends in the round of its last element, which is then followed by no comma
        rw [accept_bind_of_true hend, if_pos rfl] at h
        obtain ⟨rfl, rfl⟩ := of_pure_eq_ok h
        obtain ⟨t, hts, ht⟩ := Cursor.terminals_of_peekIs hend
        rw [hts] at h₁
        have hcomma : t.spells "," = false := spells_eq_false ht (by decide)
        exact ⟨by rw [Cursor.stop_skip, hstop], max d 0, by omega,
          .element hclose h₁ hcomma (.noElements ht)⟩
      | false =>
        rw [accept_bind_of_false hend, if_neg Bool.false_ne_true] at h
        cases hcomma : c₁.peekIs "," with
        | true =>
          rw [accept_bind_of_true hcomma] at h
          obtain ⟨es', c₂, h₂, h⟩ := of_bind_eq_ok h
          obtain ⟨rfl, rfl⟩ := of_pure_eq_ok h
          obtain ⟨t, hts, ht⟩ := Cursor.terminals_of_peekIs hcomma
          obtain ⟨hstop', d', hd', h₂⟩ := ih (by rw [Cursor.stop_skip, hstop])
            (by rw [Cursor.length_ahead_skip]; omega) h₂
          rw [hts] at h₁
          exact ⟨hstop', max d d', by omega, .elementComma hclose h₁ ht h₂⟩
        | false =>
          rw [accept_bind_of_false hcomma] at h
          obtain ⟨es', c₂, h₂, h⟩ := of_bind_eq_ok h
          obtain ⟨rfl, rfl⟩ := of_pure_eq_ok h
          obtain ⟨hstop', d', hd', h₂⟩ := ih hstop (by omega) h₂
          rw [Cursor.peekIs_eq_begins] at hcomma
          exact ⟨hstop', max d d', by omega, .element hclose h₁ hcomma h₂⟩

/-! ## Operands and chains -/

theorem sound_operand {inner : Grammar.Nested Reading} (hi : NestedSound stop bound inner)
    (hc : c.stop = stop) : Sound stop (bound + 1) .operand (Grammar.operand inner) c := by
  intro e c' h
  cases hparen : c.peekIs "(" with
  | true =>
    rw [operand_of_parenthesis hparen] at h
    obtain ⟨t, hts, ht⟩ := Cursor.terminals_of_peekIs hparen
    obtain ⟨a, c₁, h₁, h⟩ := of_bind_eq_ok h
    obtain ⟨_, c₂, h₂, h⟩ := of_bind_eq_ok h
    obtain ⟨rfl, rfl⟩ := of_pure_eq_ok h
    obtain ⟨hclose, rfl⟩ := of_expect_eq_ok h₂
    obtain ⟨hstop, d, hd, h₁⟩ := hi.expression (by rw [Cursor.stop_skip, hc]) h₁
    obtain ⟨t', hts', ht'⟩ := Cursor.terminals_of_peekIs hclose
    rw [hts'] at h₁
    exact ⟨by rw [Cursor.stop_skip, hstop], d, hd, hts ▸ .parentheses ht h₁ ht'⟩
  | false =>
    cases hbracket : c.peekIs "[" with
    | true =>
      rw [operand_of_bracket hparen hbracket] at h
      obtain ⟨t, hts, ht⟩ := Cursor.terminals_of_peekIs hbracket
      obtain ⟨es, c₁, h₁, h⟩ := of_bind_eq_ok h
      obtain ⟨rfl, rfl⟩ := of_pure_eq_ok h
      obtain ⟨hstop, d, hd, h₁⟩ :=
        sound_elements hi.expression (by rw [Cursor.stop_skip, hc]) (Nat.le_refl _) h₁
      exact ⟨hstop, d, hd, hts ▸ .array ht h₁⟩
    | false =>
      rw [operand_of_other hparen hbracket] at h
      exact sound_simpleOperand hc hi.operand hparen hbracket h

theorem sound_chainRest {next : Reading Expr} {operators : List (String × BinaryOp)}
    {tighter : List (List (String × BinaryOp))}
    (hr : ∀ {c}, c.stop = stop → Sound stop (bound + 1) (.chain tighter) next c) {n : Nat}
    {left : Expr} (hc : c.stop = stop) (hn : c.ahead.length ≤ n) :
    Sound stop (bound + 1) (.chainRest operators tighter left)
      (Grammar.chainRest operators next n left) c := by
  induction n generalizing c left with
  | zero =>
    intro e c' h
    cases h
    rw [Cursor.terminals_eq_nil_of_length_le_zero hn]
    exact ⟨hc, 0, by omega, .chainEnd (operator?_nil _)⟩
  | succ n ih =>
    intro e c' h
    rw [chainRest_apply] at h
    cases hop : operator? operators c.terminals with
    | none =>
      simp only [hop] at h
      cases h
      exact ⟨hc, 0, by omega, .chainEnd hop⟩
    | some op =>
      simp only [hop] at h
      obtain ⟨right, c₁, h₁, h⟩ := of_bind_eq_ok h
      cases hts : c.terminals with
      | nil => simp [hts] at hop
      | cons t ts =>
        have hskip := Cursor.skip_of_terminals hts
        obtain ⟨hstop, d, hd, h₁⟩ := hr (by rw [Cursor.stop_skip, hc]) h₁
        have hlen := h₁.length_ahead_lt rfl rfl rfl
        rw [Cursor.length_ahead_skip] at hlen
        obtain ⟨hstop', d', hd', h₂⟩ := ih hstop (by omega) h
        rw [hskip] at h₁
        exact ⟨hstop', max d d', by omega, .chainMore (hts ▸ hop) h₁ h₂⟩

theorem sound_chains {operand : Reading Expr} (ho : ∀ {c}, c.stop = stop →
    Sound stop (bound + 1) .operand operand c) (levels : List (List (String × BinaryOp)))
    (hc : c.stop = stop) :
    Sound stop (bound + 1) (.chain levels) (levels.foldr Grammar.chain operand) c := by
  induction levels generalizing c with
  | nil =>
    intro e c' h
    obtain ⟨hstop, d, hd, h⟩ := ho hc h
    exact ⟨hstop, d, hd, .single h⟩
  | cons operators tighter ih =>
    intro e c' h
    obtain ⟨left, c₁, h₁, h⟩ := of_bind_eq_ok h
    obtain ⟨n, c₂, h₂, h⟩ := of_bind_eq_ok h
    cases h₂
    obtain ⟨hstop, d, hd, h₁⟩ := ih hc h₁
    obtain ⟨hstop', d', hd', h₂⟩ := sound_chainRest ih hstop (Nat.le_refl _) h
    exact ⟨hstop', max d d', by omega, .chain h₁ h₂⟩

/-! ## Expressions -/

theorem sound_ternary {inner : Grammar.Nested Reading} (hi : NestedSound stop bound inner)
    (hc : c.stop = stop) : Sound stop (bound + 1) .ternary (Grammar.ternary inner) c := by
  intro e c' h
  obtain ⟨condition, c₁, h₁, h⟩ := of_bind_eq_ok h
  obtain ⟨hstop, d, hd, h₁⟩ := sound_chains (sound_operand hi) BinaryOp.levels hc h₁
  cases hp : c₁.peekIs "?" with
  | false =>
    rw [accept_bind_of_false hp] at h
    obtain ⟨rfl, rfl⟩ := of_pure_eq_ok h
    rw [Cursor.peekIs_eq_begins] at hp
    exact ⟨hstop, d, hd, .noChoice h₁ hp⟩
  | true =>
    rw [accept_bind_of_true hp, if_pos rfl] at h
    obtain ⟨t, hts, ht⟩ := Cursor.terminals_of_peekIs hp
    obtain ⟨a, c₂, h₂, h⟩ := of_bind_eq_ok h
    obtain ⟨hstop', d', hd', h₂⟩ := hi.expression (by rw [Cursor.stop_skip, hstop]) h₂
    obtain ⟨_, c₃, h₃, h⟩ := of_bind_eq_ok h
    obtain ⟨hcolon, rfl⟩ := of_expect_eq_ok h₃
    obtain ⟨t', hts', ht'⟩ := Cursor.terminals_of_peekIs hcolon
    obtain ⟨b, c₄, h₄, h⟩ := of_bind_eq_ok h
    obtain ⟨rfl, rfl⟩ := of_pure_eq_ok h
    obtain ⟨hstop'', d'', hd'', h₄⟩ := hi.expression (by rw [Cursor.stop_skip, hstop']) h₄
    rw [hts] at h₁
    rw [hts'] at h₂
    exact ⟨hstop'', max d (max d' d''), by omega, .choice h₁ ht h₂ ht' h₄⟩

theorem sound_suffixes {r : Reading Expr} (hr : ∀ {c}, c.stop = stop →
    Sound stop (bound + 1) .expression r c) {n : Nat} {e : Expr} (hc : c.stop = stop)
    (hn : c.ahead.length ≤ n) :
    Sound stop (bound + 1) (.suffixes e) (Grammar.suffixes r n e) c := by
  induction n generalizing c e with
  | zero =>
    intro e' c' h
    cases h
    rw [Cursor.terminals_eq_nil_of_length_le_zero hn]
    exact ⟨hc, 0, by omega, .noSuffix rfl rfl⟩
  | succ n ih =>
    intro e' c' h
    have hskip : c.skip.stop = stop := by rw [Cursor.stop_skip, hc]
    have hn' : c.skip.ahead.length ≤ n := by rw [Cursor.length_ahead_skip]; omega
    cases hparen : c.peekIs "(" with
    | true =>
      rw [suffixes_of_parenthesis hparen] at h
      obtain ⟨t, hts, ht⟩ := Cursor.terminals_of_peekIs hparen
      obtain ⟨es, c₁, h₁, h⟩ := of_bind_eq_ok h
      obtain ⟨hstop, d, hd, h₁⟩ := sound_arguments hr hskip h₁
      have hlen := h₁.length_ahead_lt rfl rfl rfl
      obtain ⟨hstop', d', hd', h₂⟩ := ih hstop (by omega) h
      exact ⟨hstop', max d d', by omega, hts ▸ .call ht h₁ h₂⟩
    | false =>
      cases hpipe : c.peekIs "|" with
      | false =>
        rw [suffixes_of_other hparen hpipe] at h
        cases h
        rw [Cursor.peekIs_eq_begins] at hparen hpipe
        exact ⟨hc, 0, by omega, .noSuffix hparen hpipe⟩
      | true =>
        obtain ⟨t, hts, ht⟩ := Cursor.terminals_of_peekIs hpipe
        have hskip' : c.skip.skip.stop = stop := by rw [Cursor.stop_skip, hskip]
        have hn'' : c.skip.skip.ahead.length ≤ n := by rw [Cursor.length_ahead_skip]; omega
        cases hname : c.skip.ahead with
        | nil =>
          -- the end token gives its text for the name and stays where it is
          have hend : c.skip.skip = c.skip := Cursor.skip_of_ahead_eq_nil hname
          rw [suffixes_of_pipe hparen hpipe
            (by rw [hend, Cursor.peekIs_of_ahead_eq_nil hname]), hend] at h
          obtain ⟨hstop', d, hd, h⟩ := ih hskip hn' h
          have hnil : c.skip.terminals = [] := by rw [Cursor.terminals, hname, List.map_nil]
          have hpeek : c.skip.peek = stop := by simp [Cursor.peek, hname, hc]
          rw [hnil, hpeek] at h
          obtain ⟨rfl, rfl, hrest⟩ := h.of_suffixes_nil
          rw [hts, hnil, hrest]
          exact ⟨hstop', 0, hd, .filterAtEnd rfl ht⟩
        | cons u us =>
          have hts' : c.skip.terminals = c.skip.peek.terminal :: c.skip.skip.terminals :=
            Cursor.terminals_of_kind_ne_eof fun heof ↦ by
              have := c.skip.isEof_peek
              simp [Token.isEof, heof, hname] at this
          rw [hts'] at hts
          cases hargs : c.skip.skip.peekIs "(" with
          | true =>
            rw [suffixes_of_pipe_parenthesis hparen hpipe hargs] at h
            obtain ⟨t', hts'', ht'⟩ := Cursor.terminals_of_peekIs hargs
            obtain ⟨es, c₁, h₁, h⟩ := of_bind_eq_ok h
            obtain ⟨hstop, d, hd, h₁⟩ := sound_arguments hr (by rw [Cursor.stop_skip, hskip']) h₁
            have hlen := h₁.length_ahead_lt rfl rfl rfl
            rw [Cursor.length_ahead_skip] at hlen
            obtain ⟨hstop', d', hd', h₂⟩ := ih hstop (by omega) h
            rw [hts, hts'']
            exact ⟨hstop', max d d', by omega, .filterWith ht ht' h₁ h₂⟩
          | false =>
            rw [suffixes_of_pipe hparen hpipe hargs] at h
            obtain ⟨hstop', d, hd, h⟩ := ih hskip' hn'' h
            rw [Cursor.peekIs_eq_begins] at hargs
            rw [hts]
            exact ⟨hstop', d, hd, .filter ht hargs h⟩

theorem sound_expression {inner : Grammar.Nested Reading} (hi : NestedSound stop bound inner)
    (hc : c.stop = stop) : Sound stop (bound + 2) .expression (Grammar.expression inner) c := by
  intro e' c' h
  obtain ⟨e, c₁, h₁, h⟩ := of_bind_eq_ok h
  obtain ⟨n, c₂, h₂, h⟩ := of_bind_eq_ok h
  cases h₂
  obtain ⟨hstop, d, hd, h₁⟩ := sound_ternary hi hc h₁
  obtain ⟨hstop', d', hd', h₂⟩ := sound_suffixes hi.expression hstop (Nat.le_refl _) h
  exact ⟨hstop', max d d' + 1, by omega, .expression h₁ h₂⟩

/-! ## All limits -/

/-- Whatever is read is derived, within any limit. -/
theorem sound_within (stop : Token) (limit : Nat) :
    NestedSound stop limit (Grammar.within limit) := by
  induction limit with
  | zero =>
    constructor
    · intro c hc e c' h
      cases h
    · intro c hc e c' h
      cases h
  | succ limit ih => exact ⟨sound_expression ih, sound_operand ih⟩

end Reading

end TemplateExpr
