import TemplateExpr.Proofs.Steps

/-!
# What is derived is read

Whatever the grammar derives from the terminals of a cursor, a production reads off it, unless more
levels are open at once than there may be. In that case reading fails for that reason and for no
other, whatever the place at which the levels run out (`Reading.complete_within`).

## Both outcomes at once

A derivation says how many levels it opens, and a production has a bound for them. That the reading
succeeds below the bound and fails for its levels from there on is one statement (`Reaches`), so one
induction settles both, and a sequence needs one rule only (`Reaches.bind`): it opens as many levels
as the part that opens more of them. If the first part fails for its levels the second one is not
reached, and then the levels of the second do not matter.

## What the induction is on

The productions of a level are taken one by one, given those of the level inside. A repetition is
followed by an induction on its own bound, which decreases along with the tokens that are left, and
the chains by one on the levels of the operators. Only then comes the induction on the limit. The
derivations are taken apart on the way, never gone through.
-/

namespace TemplateExpr

open Terminal

namespace Reading

variable {α β : Type}

variable {stop : Token} {bound d d' : Nat} {c : Cursor} {rest us : List Terminal}

/-! ## Reading as far as there are levels -/

/-- A reading that opens `d` levels at once ends with `a` before `rest`, unless `bound` is not above
`d`; then it fails because there are too many levels. -/
structure Reaches (stop : Token) (bound d : Nat) (r : Reading α) (c : Cursor) (a : α)
    (rest : List Terminal) : Prop where
  /-- There are levels enough. -/
  ok : d < bound → ∃ c', r c = .ok a c' ∧ c'.stop = stop ∧ c'.terminals = rest
  /-- There are not. -/
  tooDeep : bound ≤ d → ∃ t c', r c = .error (.nestingTooDeep t) c'

namespace Reaches

theorem of_eq {r r' : Reading α} {c' : Cursor} {a : α} (h : r c = r' c')
    (hr : Reaches stop bound d r' c' a rest) : Reaches stop bound d r c a rest :=
  ⟨fun hd ↦ h ▸ hr.ok hd, fun hd ↦ h ▸ hr.tooDeep hd⟩

theorem of_eq_ok {r : Reading α} {c' : Cursor} {a : α} (h : r c = .ok a c')
    (hstop : c'.stop = stop) (hrest : c'.terminals = rest) :
    Reaches stop (bound + 1) 0 r c a rest :=
  ⟨fun _ ↦ ⟨c', h, hstop, hrest⟩, fun hd ↦ absurd hd (by omega)⟩

/-- A sequence opens as many levels as the part that opens more of them. If there are too few for
the first part, the second is not reached. -/
theorem bind {x : Reading α} {f : α → Reading β} {a : α} {b : β}
    (hx : Reaches stop bound d x c a us)
    (hf : ∀ {c'}, c'.stop = stop → c'.terminals = us → Reaches stop bound d' (f a) c' b rest) :
    Reaches stop bound (max d d') (x >>= f) c b rest := by
  constructor
  · intro hd
    obtain ⟨c₁, h₁, hstop, hus⟩ := hx.ok (by omega)
    obtain ⟨c₂, h₂, hc₂⟩ := (hf hstop hus).ok (by omega)
    exact ⟨c₂, by rw [bind_of_ok h₁, h₂], hc₂⟩
  · intro hd
    by_cases hd₁ : d < bound
    · obtain ⟨c₁, h₁, hstop, hus⟩ := hx.ok hd₁
      obtain ⟨t, c₂, h₂⟩ := (hf hstop hus).tooDeep (by omega)
      exact ⟨t, c₂, by rw [bind_of_ok h₁, h₂]⟩
    · obtain ⟨t, c₁, h₁⟩ := hx.tooDeep (by omega)
      exact ⟨t, c₁, bind_of_error h₁⟩

theorem map {x : Reading α} {a : α} (g : α → β) (hx : Reaches stop bound d x c a rest) :
    Reaches stop bound d (x >>= fun a ↦ pure (g a)) c (g a) rest := by
  constructor
  · intro hd
    obtain ⟨c₁, h₁, hc₁⟩ := hx.ok hd
    exact ⟨c₁, bind_of_ok h₁, hc₁⟩
  · intro hd
    obtain ⟨t, c₁, h₁⟩ := hx.tooDeep hd
    exact ⟨t, c₁, bind_of_error h₁⟩

theorem expect {x : Reading α} {a : α} {t : Terminal} {lexeme : String}
    (hx : Reaches stop bound d x c a (t :: rest)) (ht : t.spells lexeme = true) :
    Reaches stop bound d (x >>= fun a ↦ Grammar.expect lexeme >>= fun _ ↦ pure a) c a rest := by
  constructor
  · intro hd
    obtain ⟨c₁, h₁, hstop, hts⟩ := hx.ok hd
    refine ⟨c₁.skip, ?_, by rw [Cursor.stop_skip, hstop], Cursor.skip_of_terminals hts⟩
    rw [bind_of_ok h₁, bind_of_ok (expect_of_true (by rw [Cursor.peekIs_of_terminals hts, ht]))]
    rfl
  · intro hd
    obtain ⟨t, c₁, h₁⟩ := hx.tooDeep hd
    exact ⟨t, c₁, bind_of_error h₁⟩

end Reaches

/-! ## Complete productions -/

def Complete (stop : Token) (bound : Nat) (phrase : α → Phrase) (r : Reading α) (c : Cursor) :
    Prop :=
  ∀ {d a rest}, Derives (some stop.text) d (phrase a) c.terminals rest →
    Reaches stop bound d r c a rest

/-- Both productions of a level within which `limit` levels may be open are complete. -/
structure NestedComplete (stop : Token) (limit : Nat) (inner : Grammar.Nested Reading) : Prop where
  expression : ∀ {c}, c.stop = stop → Complete stop (limit + 1) .expression inner.expression c
  operand : ∀ {c}, c.stop = stop → Complete stop limit .operand inner.operand c

/-! ## Lists -/

theorem complete_listRest {r : Reading Expr} (hr : ∀ {c}, c.stop = stop →
    Complete stop (bound + 1) .expression r c) {n : Nat} (hc : c.stop = stop)
    (hn : c.ahead.length ≤ n) : Complete stop (bound + 1) .listRest (Grammar.listRest r n) c := by
  induction n generalizing c with
  | zero =>
    intro d es rest h
    rw [Cursor.terminals_eq_nil_of_length_le_zero hn] at h
    obtain rfl := h.rest_eq_nil_of rfl
    cases h with
    | listEnd => exact .of_eq_ok rfl hc (Cursor.terminals_eq_nil_of_length_le_zero hn)
  | succ n ih =>
    intro d es rest h
    generalize hts : c.terminals = ts at h
    cases h with
    | listEnd hend =>
      refine .of_eq_ok (listRest_of_other ?_) hc hts
      rw [Cursor.peekIs_eq_begins, hts, hend]
    | listMore ht h₁ h₂ =>
      refine .of_eq (listRest_of_comma (by rw [Cursor.peekIs_of_terminals hts, ht])) ?_
      have hskip := Cursor.skip_of_terminals hts
      refine (hr (by rw [Cursor.stop_skip, hc]) (hskip ▸ h₁)).bind fun {c'} hstop hus ↦ ?_
      have hlen := h₁.length_ahead_lt rfl hskip hus
      rw [Cursor.length_ahead_skip] at hlen
      exact (ih hstop (by omega) (hus ▸ h₂)).map _

theorem complete_arguments {r : Reading Expr} (hr : ∀ {c}, c.stop = stop →
    Complete stop (bound + 1) .expression r c) (hc : c.stop = stop) :
    Complete stop (bound + 1) .arguments (Grammar.arguments r) c := by
  intro d es rest h
  generalize hts : c.terminals = ts at h
  cases h with
  | noArguments ht =>
    refine .of_eq_ok (arguments_of_parenthesis ?_) (by rw [Cursor.stop_skip, hc])
      (Cursor.skip_of_terminals hts)
    rw [Cursor.peekIs_of_terminals hts, ht]
  | someArguments hsome h₁ h₂ ht =>
    refine .of_eq (arguments_of_other (by rw [Cursor.peekIs_eq_begins, hts, hsome])) ?_
    refine Reaches.expect ?_ ht
    refine (hr hc (hts ▸ h₁)).bind fun {c'} hstop hus ↦ ?_
    refine .of_eq (bind_of_ok (tokensLeft_apply c')) ?_
    exact (complete_listRest hr hstop (Nat.le_refl _) (hus ▸ h₂)).map _

theorem complete_elements {r : Reading Expr} (hr : ∀ {c}, c.stop = stop →
    Complete stop (bound + 1) .expression r c) {n : Nat} (hc : c.stop = stop)
    (hn : c.ahead.length ≤ n) : Complete stop (bound + 1) .elements (Grammar.elements r n) c := by
  induction n generalizing c with
  | zero =>
    intro d es rest h
    exact absurd (Cursor.terminals_eq_nil_of_length_le_zero hn) (h.ne_nil_of_least rfl)
  | succ n ih =>
    intro d es rest h
    generalize hts : c.terminals = ts at h
    cases h with
    | noElements ht =>
      refine .of_eq_ok (elements_of_bracket ?_) (by rw [Cursor.stop_skip, hc])
        (Cursor.skip_of_terminals hts)
      rw [Cursor.peekIs_of_terminals hts, ht]
    | @element _ _ e es ts us _ hsome h₁ hnone h₂ =>
      refine .of_eq (elements_of_other (by rw [Cursor.peekIs_eq_begins, hts, hsome])) ?_
      refine (hr hc (hts ▸ h₁)).bind fun {c'} hstop hus ↦ ?_
      have hlen := h₁.length_ahead_lt rfl hts hus
      cases hend : c'.peekIs "]" with
      | true =>
        -- the closing bracket is taken at once, not in a round of its own
        refine .of_eq (accept_bind_of_true hend _) ?_
        rw [if_pos rfl]
        obtain ⟨t, hts', ht⟩ := Cursor.terminals_of_peekIs hend
        rw [hus] at hts'
        subst hts'
        cases h₂ with
        | noElements => exact .of_eq_ok rfl (by rw [Cursor.stop_skip, hstop]) rfl
        | element hsome | elementComma hsome => simp [ht] at hsome
      | false =>
        refine .of_eq (accept_bind_of_false hend _) ?_
        rw [if_neg Bool.false_ne_true]
        refine .of_eq (accept_bind_of_false (by rw [Cursor.peekIs_eq_begins, hus, hnone]) _) ?_
        exact (ih hstop (by omega) (hus ▸ h₂)).map _
    | elementComma hsome h₁ ht h₂ =>
      refine .of_eq (elements_of_other (by rw [Cursor.peekIs_eq_begins, hts, hsome])) ?_
      refine (hr hc (hts ▸ h₁)).bind fun {c'} hstop hus ↦ ?_
      have hlen := h₁.length_ahead_lt rfl hts hus
      have hend : c'.peekIs "]" = false := by
        rw [Cursor.peekIs_of_terminals hus, spells_eq_false ht (by decide)]
      have hcomma : c'.peekIs "," = true := by rw [Cursor.peekIs_of_terminals hus, ht]
      refine .of_eq (accept_bind_of_false hend _) ?_
      rw [if_neg Bool.false_ne_true]
      refine .of_eq (accept_bind_of_true hcomma _) ?_
      have hskip := Cursor.skip_of_terminals hus
      exact (ih (by rw [Cursor.stop_skip, hstop])
        (by rw [Cursor.length_ahead_skip]; omega) (hskip ▸ h₂)).map _

/-! ## Operands and chains -/

theorem complete_operand {inner : Grammar.Nested Reading} (hi : NestedComplete stop bound inner)
    (hc : c.stop = stop) : Complete stop (bound + 1) .operand (Grammar.operand inner) c := by
  intro d e rest h
  have hskip : c.skip.stop = stop := by rw [Cursor.stop_skip, hc]
  generalize hts : c.terminals = ts at h
  cases h with
  | parentheses ht h₁ ht' =>
    refine .of_eq (operand_of_parenthesis (by rw [Cursor.peekIs_of_terminals hts, ht])) ?_
    exact (hi.expression hskip (Cursor.skip_of_terminals hts ▸ h₁)).expect ht'
  | array ht h₁ =>
    refine .of_eq (operand_of_bracket ?_ (by rw [Cursor.peekIs_of_terminals hts, ht])) ?_
    · rw [Cursor.peekIs_of_terminals hts, spells_eq_false ht (by decide)]
    · exact (complete_elements hi.expression hskip (Nat.le_refl _)
        (Cursor.skip_of_terminals hts ▸ h₁)).map _
  | @unary d op a t _ _ hkind hop h₁ =>
    -- no prefix operator is spelled like an opening delimiter
    have hne : ∀ lexeme, UnaryOp.ofSpelling? lexeme = none → c.peekIs lexeme = false := by
      intro lexeme hnone
      rw [Cursor.peekIs_of_terminals hts]
      refine spells_eq_false_of_text_ne fun htext ↦ ?_
      rw [htext, hnone] at hop
      cases hop
    refine .of_eq (operand_of_other (hne _ rfl) (hne _ rfl)) ?_
    rw [← Cursor.kind_peek_of_terminals hts] at hkind
    rw [← Cursor.text_peek_of_terminals hts] at hop
    refine .of_eq (simpleOperand_of_symbol hkind hop) ?_
    have hr := (hi.operand hskip (Cursor.skip_of_terminals hts ▸ h₁)).map (Expr.unary op)
    exact ⟨fun hd ↦ hr.ok (by omega), fun hd ↦ hr.tooDeep (by omega)⟩
  | number hkind hv =>
    -- and neither is a number
    have hne : ∀ lexeme, Literal.ofNumber? lexeme.toList = none → c.peekIs lexeme = false := by
      intro lexeme hnone
      rw [Cursor.peekIs_of_terminals hts]
      refine spells_eq_false_of_text_ne fun htext ↦ ?_
      rw [htext, hnone] at hv
      cases hv
    refine .of_eq (operand_of_other (hne _ (by rfl)) (hne _ (by rfl))) ?_
    rw [← Cursor.kind_peek_of_terminals hts] at hkind
    rw [← Cursor.text_peek_of_terminals hts] at hv
    exact .of_eq_ok (simpleOperand_of_number hkind hv) hskip (Cursor.skip_of_terminals hts)
  | string hkind =>
    have hne : ∀ lexeme, c.peekIs lexeme = false := by
      intro lexeme
      rw [Cursor.peekIs_of_terminals hts, spells, hkind]
    refine .of_eq (operand_of_other (hne _) (hne _)) ?_
    rw [← Cursor.kind_peek_of_terminals hts] at hkind
    rw [← Cursor.text_peek_of_terminals hts]
    exact .of_eq_ok (simpleOperand_of_string hkind) hskip (Cursor.skip_of_terminals hts)
  | word hkind hparen hbracket =>
    rw [← Cursor.peekIs_of_terminals hts] at hparen hbracket
    refine .of_eq (operand_of_other hparen hbracket) ?_
    rw [← Cursor.kind_peek_of_terminals hts] at hkind
    rw [← Cursor.text_peek_of_terminals hts]
    exact .of_eq_ok (simpleOperand_of_identifier hkind) hskip (Cursor.skip_of_terminals hts)

theorem complete_chainRest {next : Reading Expr} {operators : List (String × BinaryOp)}
    {tighter : List (List (String × BinaryOp))}
    (hr : ∀ {c}, c.stop = stop → Complete stop (bound + 1) (.chain tighter) next c) {n : Nat}
    {left : Expr} (hc : c.stop = stop) (hn : c.ahead.length ≤ n) :
    Complete stop (bound + 1) (.chainRest operators tighter left)
      (Grammar.chainRest operators next n left) c := by
  induction n generalizing c left with
  | zero =>
    intro d e rest h
    rw [Cursor.terminals_eq_nil_of_length_le_zero hn] at h
    obtain rfl := h.rest_eq_nil_of rfl
    cases h with
    | chainEnd => exact .of_eq_ok rfl hc (Cursor.terminals_eq_nil_of_length_le_zero hn)
  | succ n ih =>
    intro d e rest h
    have hstep := chainRest_apply (c := c) operators next n left
    generalize hts : c.terminals = ts at h hstep
    cases h with
    | chainEnd hend =>
      simp only [hend] at hstep
      exact .of_eq_ok hstep hc hts
    | chainMore hop h₁ h₂ =>
      simp only [hop] at hstep
      refine .of_eq hstep ?_
      have hskip := Cursor.skip_of_terminals hts
      refine (hr (by rw [Cursor.stop_skip, hc]) (hskip ▸ h₁)).bind fun {c'} hstop hus ↦ ?_
      have hlen := h₁.length_ahead_lt rfl hskip hus
      rw [Cursor.length_ahead_skip] at hlen
      exact ih hstop (by omega) (hus ▸ h₂)

theorem complete_chains {operand : Reading Expr} (ho : ∀ {c}, c.stop = stop →
    Complete stop (bound + 1) .operand operand c) (levels : List (List (String × BinaryOp)))
    (hc : c.stop = stop) :
    Complete stop (bound + 1) (.chain levels) (levels.foldr Grammar.chain operand) c := by
  induction levels generalizing c with
  | nil =>
    intro d e rest h
    cases h with
    | single h => exact ho hc h
  | cons operators tighter ih =>
    intro d e rest h
    cases h with
    | chain h₁ h₂ =>
      refine (ih hc h₁).bind fun {c'} hstop hus ↦ ?_
      refine .of_eq (bind_of_ok (tokensLeft_apply c')) ?_
      exact complete_chainRest ih hstop (Nat.le_refl _) (hus ▸ h₂)

/-! ## Expressions -/

theorem complete_ternary {inner : Grammar.Nested Reading} (hi : NestedComplete stop bound inner)
    (hc : c.stop = stop) : Complete stop (bound + 1) .ternary (Grammar.ternary inner) c := by
  intro d e rest h
  cases h with
  | noChoice h₁ hend =>
    have hx := complete_chains (complete_operand hi) BinaryOp.levels hc h₁
    rw [← Nat.max_zero d]
    refine hx.bind fun {c'} hstop hus ↦ ?_
    refine .of_eq (accept_bind_of_false (by rw [Cursor.peekIs_eq_begins, hus, hend]) _) ?_
    exact .of_eq_ok rfl hstop hus
  | choice h₁ ht h₂ ht' h₃ =>
    refine (complete_chains (complete_operand hi) BinaryOp.levels hc h₁).bind
      fun {c₁} hstop hus ↦ ?_
    refine .of_eq (accept_bind_of_true (by rw [Cursor.peekIs_of_terminals hus, ht]) _) ?_
    rw [if_pos rfl]
    have hskip := Cursor.skip_of_terminals hus
    refine (hi.expression (by rw [Cursor.stop_skip, hstop]) (hskip ▸ h₂)).bind
      fun {c₂} hstop' hus' ↦ ?_
    have hcolon : c₂.peekIs ":" = true := by rw [Cursor.peekIs_of_terminals hus', ht']
    refine .of_eq (bind_of_ok (expect_of_true hcolon)) ?_
    have hskip' := Cursor.skip_of_terminals hus'
    exact (hi.expression (by rw [Cursor.stop_skip, hstop']) (hskip' ▸ h₃)).map _

theorem complete_suffixes {r : Reading Expr} (hr : ∀ {c}, c.stop = stop →
    Complete stop (bound + 1) .expression r c) {n : Nat} {e : Expr} (hc : c.stop = stop)
    (hn : c.ahead.length ≤ n) :
    Complete stop (bound + 1) (.suffixes e) (Grammar.suffixes r n e) c := by
  induction n generalizing c e with
  | zero =>
    intro d e' rest h
    rw [Cursor.terminals_eq_nil_of_length_le_zero hn] at h
    obtain rfl := h.rest_eq_nil_of rfl
    cases h with
    | noSuffix => exact .of_eq_ok rfl hc (Cursor.terminals_eq_nil_of_length_le_zero hn)
  | succ n ih =>
    intro d e' rest h
    have hskip : c.skip.stop = stop := by rw [Cursor.stop_skip, hc]
    have hskip' : c.skip.skip.stop = stop := by rw [Cursor.stop_skip, hskip]
    have hn' : c.skip.ahead.length ≤ n := by rw [Cursor.length_ahead_skip]; omega
    have hn'' : c.skip.skip.ahead.length ≤ n := by rw [Cursor.length_ahead_skip]; omega
    generalize hts : c.terminals = ts at h
    -- a pipe is looked for only where no argument list begins
    have hpipe : ∀ {t us}, ts = t :: us → t.spells "|" = true →
        c.peekIs "(" = false ∧ c.peekIs "|" = true := by
      rintro t us rfl ht
      rw [Cursor.peekIs_of_terminals hts, Cursor.peekIs_of_terminals hts]
      exact ⟨spells_eq_false ht (by decide), ht⟩
    cases h with
    | noSuffix hparen hnone =>
      refine .of_eq_ok (suffixes_of_other ?_ ?_) hc hts
      · rw [Cursor.peekIs_eq_begins, hts, hparen]
      · rw [Cursor.peekIs_eq_begins, hts, hnone]
    | call ht h₁ h₂ =>
      refine .of_eq (suffixes_of_parenthesis (by rw [Cursor.peekIs_of_terminals hts, ht])) ?_
      have hus := Cursor.skip_of_terminals hts
      refine (complete_arguments hr hskip (hus ▸ h₁)).bind fun {c'} hstop hus' ↦ ?_
      have hlen := h₁.length_ahead_lt rfl hus hus'
      exact ih hstop (by omega) (hus' ▸ h₂)
    | filter ht hnone h₁ =>
      obtain ⟨hparen, ht⟩ := hpipe rfl ht
      have hname := Cursor.skip_of_terminals hts
      have hus := Cursor.skip_of_terminals hname
      have hargs : c.skip.skip.peekIs "(" = false := by rw [Cursor.peekIs_eq_begins, hus, hnone]
      refine .of_eq (suffixes_of_pipe hparen ht hargs) ?_
      rw [Cursor.text_peek_of_terminals hname]
      exact ih hskip' hn'' (hus ▸ h₁)
    | filterWith ht ht' h₁ h₂ =>
      obtain ⟨hparen, ht⟩ := hpipe rfl ht
      have hname := Cursor.skip_of_terminals hts
      have hargs := Cursor.skip_of_terminals hname
      have hus := Cursor.skip_of_terminals hargs
      refine .of_eq (suffixes_of_pipe_parenthesis hparen ht
        (by rw [Cursor.peekIs_of_terminals hargs, ht'])) ?_
      rw [Cursor.text_peek_of_terminals hname]
      refine (complete_arguments hr (by rw [Cursor.stop_skip, hskip']) (hus ▸ h₁)).bind
        fun {c'} hstop hus' ↦ ?_
      have hlen := h₁.length_ahead_lt rfl hus hus'
      rw [Cursor.length_ahead_skip] at hlen
      exact ih hstop (by omega) (hus' ▸ h₂)
    | filterAtEnd hname ht =>
      -- the token after the pipe is the end token, which skipping does not pass
      obtain ⟨hparen, ht⟩ := hpipe rfl ht
      have hnil := Cursor.skip_of_terminals hts
      have hahead : c.skip.ahead = [] := List.map_eq_nil_iff.1 hnil
      have hpeek : c.skip.peek = stop := by simp [Cursor.peek, hahead, hc]
      have hend : c.skip.skip = c.skip := Cursor.skip_of_ahead_eq_nil hahead
      refine .of_eq (suffixes_of_pipe hparen ht
        (by rw [hend, Cursor.peekIs_of_ahead_eq_nil hahead])) ?_
      rw [hend, hpeek, ← Option.some.inj hname]
      exact ih hskip hn' (by rw [hnil]; exact .noSuffix rfl rfl)

theorem complete_expression {inner : Grammar.Nested Reading}
    (hi : NestedComplete stop bound inner) (hc : c.stop = stop) :
    Complete stop (bound + 2) .expression (Grammar.expression inner) c := by
  intro d e rest h
  cases h with
  | @expression d₁ d₂ _ _ _ _ _ h₁ h₂ =>
    -- the level of the expression itself is on both sides of the comparison with the bound
    have hr : Reaches stop (bound + 1) (max d₁ d₂) (Grammar.expression inner) c e rest := by
      refine (complete_ternary hi hc h₁).bind fun {c'} hstop hus ↦ ?_
      refine .of_eq (bind_of_ok (tokensLeft_apply c')) ?_
      exact complete_suffixes hi.expression hstop (Nat.le_refl _) (hus ▸ h₂)
    exact ⟨fun hd ↦ hr.ok (by omega), fun hd ↦ hr.tooDeep (by omega)⟩

/-! ## All limits -/

/-- Whatever is derived is read within any limit that leaves levels enough. -/
theorem complete_within (stop : Token) (limit : Nat) :
    NestedComplete stop limit (Grammar.within limit) := by
  induction limit with
  | zero =>
    constructor
    · intro c _ d e rest h
      refine ⟨fun hd ↦ ?_, fun _ ↦ ⟨_, _, rfl⟩⟩
      cases h with
      | expression => exact absurd hd (by omega)
    · intro c _ d e rest _
      exact ⟨fun hd ↦ absurd hd (by omega), fun _ ↦ ⟨_, _, rfl⟩⟩
  | succ limit ih => exact ⟨complete_expression ih, complete_operand ih⟩

end Reading

end TemplateExpr
