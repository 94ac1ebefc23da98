import TemplateExpr.Proofs.Failure

/-!
# Failures of productions

Every production that fails has read something that can be completed (`fails_within`). Each one is
followed along its branches with the rules for failures, and is given the terminals that would have
ended it: a closing delimiter, or a name where an operand is missing, or nothing.

## The induction

The induction is on the limit. What it needs to know of the productions inside is more than that
they fail for one of the reasons. A list goes on after an element, and a chain after an operator,
only if the expression that comes next may be anything that begins one; so an expression must not
fail at its first token for any reason but the want of an operand. That is so as long as a level is
left for it.

## No level left

Where no level is left, an expression always fails at its first token, and the lists are not read
beyond their first element, before which they may still be closed. So both kinds of expressions are
carried through the lists: those that fail for want of an operand and those that always fail.
-/

namespace TemplateExpr

open Terminal

/-! ## Completions -/

theorem expression_someName {rest : List Terminal} (hrest : Closes rest) :
    Derives none 1 (.expression (.name "a")) (someName :: rest) rest :=
  (Derives.operand_name (by decide) rest).expression_of_operand hrest

theorem Derives.pos_of_expression {d : Nat} {e : Expr} {ts rest : List Terminal}
    (h : Derives none d (.expression e) ts rest) : 0 < d := by
  cases h with
  | expression => exact Nat.succ_pos _

/-- Some terminals before `rest` are the rest of a list of arguments and a closing parenthesis. -/
def CanEndArguments (bound : Nat) (ts rest : List Terminal) : Prop :=
  ∃ es, ∃ d < bound, ∃ t, t.spells ")" = true ∧ Derives none d (.listRest es) ts (t :: rest)

namespace Reading

variable {limit bound : Nat} {c : Cursor}

/-! ## Lists -/

section List

variable {x : Reading Expr} (hx : Exact (bound + 1) .expression x)
include hx

theorem exact_arguments : Exact (bound + 1) .arguments (Grammar.arguments x) where
  sound _ := sound_arguments (fun hc ↦ hc ▸ hx.sound _) rfl
  complete _ := complete_arguments (fun hc ↦ hc ▸ hx.complete _) rfl
  least _ := rfl
  levels _ := List.nil_subset _

/-- The rest of a list of arguments fails in its expressions, or for want of a parenthesis. -/
theorem fails_moreArguments (hf : ∀ c, Fails anyReason (Can (bound + 1) .expression) x c)
    (c : Cursor) :
    Fails Reason.Plain (CanEndArguments (bound + 1)) (moreArguments x) c := by
  induction hn : c.ahead.length using Nat.strong_induction_on generalizing c with
  | _ n ih =>
    subst hn
    by_cases hcomma : c.peekIs "," = true
    · refine .skip_of_peekIs hcomma (moreArguments_of_comma hx.advances) fun {t} ht ↦ ?_
      have hvs : Seals (Can (bound + 1) .expression)
          (fun ts ↦ CanEndArguments (bound + 1) (t :: ts)) [symbol ")"] := by
        refine .symbol (by decide) ?_
        rintro ts rest - ⟨e, d, hd, h⟩
        exact ⟨[e], max d 0, by omega, symbol ")", rfl, .listMore ht h (.listEnd rfl)⟩
      refine .bind hx (hf _) hvs fun {e c'} he ↦ .map _ ((ih _ ?_ c' rfl).mono id ?_)
      · have hlt := hx.advances he
        rw [Cursor.length_ahead_skip] at hlt
        omega
      · rintro ts rest - ⟨es, d', hd', t', ht', h'⟩ d ts' hd h
        exact ⟨e :: es, max d d', by omega, t', ht', .listMore ht h h'⟩
    · rw [Bool.not_eq_true] at hcomma
      have hclose : Fails Reason.Plain (CanEndArguments (bound + 1))
          (Grammar.expect ")" >>= fun _ ↦ pure [] : Reading (List Expr)) c := by
        refine .expect (by decide) [] (List.forall_mem_nil _) ?_ fun _ ↦ .of_ok rfl
        exact fun _ ↦ ⟨[], 0, Nat.succ_pos _, symbol ")", rfl, .listEnd rfl⟩
      refine .of_eq (fun {c₁} hc₁ ↦ moreArguments_of_other ?_) hclose id fun _ _ h ↦ h
      rw [Cursor.peekIs_congr hc₁, hcomma]

section Expression

-- no level is left for the expressions, or else they fail at their beginning only for want of an
-- operand
variable (hf : x = Grammar.tooDeep ∨
  ∀ c, Fails (· = .unexpected) (Can (bound + 1) .expression) x c)
include hf

theorem fails_arguments (c : Cursor) :
    Fails anyReason (Can (bound + 1) .arguments) (Grammar.arguments x) c := by
  by_cases hclose : c.peekIs ")" = true
  · exact .of_ok (arguments_of_parenthesis hclose)
  rw [Bool.not_eq_true] at hclose
  rcases hf with rfl | hf
  · refine .of_tooDeep_of_not_peekIs (l := .parenthesis) hclose (fun hc₁ ↦ ?_)
      ⟨[], 0, Nat.succ_pos _, .noArguments rfl⟩
    rw [arguments_eq_moreArguments hc₁]
    rfl
  · have hvs : Seals (Can (bound + 1) .expression)
        (fun ts rest ↦ begins ts ")" = false → Can (bound + 1) .arguments ts rest)
        [symbol ")"] := by
      refine .symbol (by decide) ?_
      rintro ts rest - ⟨e, d, hd, h⟩ hsome
      exact ⟨[e], max d 0, by omega, .someArguments hsome h (.listEnd rfl) rfl⟩
    have hseq : Fails (· = .unexpected)
        (fun ts rest ↦ begins ts ")" = false → Can (bound + 1) .arguments ts rest)
        (x >>= fun e ↦ moreArguments x >>= fun es ↦ pure (e :: es)) c := by
      refine .bind hx (hf c) hvs fun {e c'} _ ↦ .map _ ?_
      refine (fails_moreArguments hx (fun c ↦ (hf c).fails_anyReason) c').mono id ?_
      rintro ts rest - ⟨es, d', hd', t, ht, h'⟩ d ts' hd h hsome
      exact ⟨e :: es, max d d', by omega, .someArguments hsome h h' ht⟩
    exact .fails_anyReason
      (.of_not_peekIs hclose rfl arguments_eq_moreArguments hseq fun _ hts h ↦ h hts)

omit hf in
/-- After an element that was not the last one, the next one fails as the first one would. -/
theorem fails_elements_of_unexpected
    (hf : ∀ c, Fails (· = .unexpected) (Can (bound + 1) .expression) x c) (c : Cursor) :
    Fails (· = .unexpected) (Can (bound + 1) .elements) (moreElements x) c := by
  induction hn : c.ahead.length using Nat.strong_induction_on generalizing c with
  | _ n ih =>
    subst hn
    by_cases hclose : c.peekIs "]" = true
    · exact .of_ok (moreElements_of_bracket hclose)
    rw [Bool.not_eq_true] at hclose
    have hvs : Seals (Can (bound + 1) .expression)
        (fun ts rest ↦ begins ts "]" = false → Can (bound + 1) .elements ts rest)
        [symbol "]"] := by
      refine .symbol (by decide) ?_
      rintro ts rest - ⟨e, d, hd, h⟩ hsome
      exact ⟨[e], max d 0, by omega, .element hsome h rfl (.noElements rfl)⟩
    have hseq : Fails (· = .unexpected)
        (fun ts rest ↦ begins ts "]" = false → Can (bound + 1) .elements ts rest)
        (x >>= fun e ↦ Grammar.accept "," >>= fun _ ↦ moreElements x >>= fun es ↦
          pure (e :: es)) c := by
      refine .bind hx (hf c) hvs fun {e c'} he ↦ ?_
      have hlt := hx.advances he
      have hle := c'.length_ahead_skip
      by_cases hcomma : c'.peekIs "," = true
      · refine .skip_of_peekIs hcomma (fun hc₁ ↦ accept_bind_of_true hc₁ _) fun ht ↦
          .map _ ((ih _ (by omega) c'.skip rfl).mono (fun _ ↦ trivial) ?_)
        rintro ts rest - ⟨es, d', hd', h'⟩ d ts' hd h hsome
        exact ⟨e :: es, max d d', by omega, .elementComma hsome h ht h'⟩
      · rw [Bool.not_eq_true] at hcomma
        refine .fails_plain (.of_not_peekIs hcomma rfl (fun hc₁ ↦ accept_bind_of_false hc₁ _)
          (.map _ (ih _ (by omega) c' rfl)) ?_)
        rintro ts rest - hnone ⟨es, d', hd', h'⟩ d ts' hd h hsome
        exact ⟨e :: es, max d d', by omega, .element hsome h hnone h'⟩
    exact .of_not_peekIs hclose rfl (moreElements_of_other hx.advances) hseq
      fun _ hts h ↦ h hts

theorem fails_elements (c : Cursor) :
    Fails anyReason (Can (bound + 1) .elements) (moreElements x) c := by
  by_cases hclose : c.peekIs "]" = true
  · exact .of_ok (moreElements_of_bracket hclose)
  rw [Bool.not_eq_true] at hclose
  rcases hf with rfl | hf
  · refine .of_tooDeep_of_not_peekIs (l := .bracket) hclose (fun hc₁ ↦ ?_)
      ⟨[], 0, Nat.succ_pos _, .noElements rfl⟩
    rw [moreElements_of_other hx.advances hc₁]
    rfl
  · exact (fails_elements_of_unexpected hx hf c).fails_anyReason

section Suffixes

-- the suffixes that come after one more suffix
variable {n : Nat} (ih : ∀ (c : Cursor) (e : Expr), c.ahead.length < n →
  Fails (· = .unexpected) (Can (bound + 1) (.suffixes e)) (moreSuffixes x e) c)
include ih

/-! ## Suffixes -/

/-- Arguments and the suffixes after them fail where they do, if they make a suffix together with
what stands before them. -/
theorem fails_suffix_of_arguments {e : Expr} {f : List Expr → Expr} (front : List Terminal)
    (hn : c.ahead.length ≤ n) (hfront : ∀ {es e' d d' ts us rest},
      Derives none d (.arguments es) ts us → Derives none d' (.suffixes (f es) e') us rest →
      Derives none (max d d') (.suffixes e e') (front ++ ts) rest) :
    Fails anyReason (fun ts ↦ Can (bound + 1) (.suffixes e) (front ++ ts))
      (Grammar.arguments x >>= fun es ↦ moreSuffixes x (f es)) c := by
  have hx' := exact_arguments hx
  refine .bind hx' (fails_arguments hx hf c) (.nil ?_) fun {es c'} hes ↦ ?_
  · rintro ts rest hrest ⟨es, d, hd, h⟩
    exact ⟨_, max d 0, by omega, hfront h (.noSuffix hrest.parenthesis hrest.pipe)⟩
  · have hlt := hx'.advances hes
    refine (ih c' _ (by omega)).mono Reason.plain_of_eq ?_
    rintro ts rest - ⟨e', d', hd', h'⟩ d ts' hd h
    exact ⟨e', max d d', by omega, hfront h h'⟩

theorem fails_namedFilter (hn : c.ahead.length < n) (e : Expr) {t : Terminal}
    (ht : t.spells "|" = true) (name : Terminal) : Fails (· = .unexpected)
      (fun ts ↦ Can (bound + 1) (.suffixes e) (t :: name :: ts)) (namedFilter x name.text e) c := by
  by_cases hparen : c.peekIs "(" = true
  · refine .skip_of_peekIs hparen namedFilter_of_parenthesis fun {t'} ht' ↦ ?_
    have hle := c.length_ahead_skip
    exact fails_suffix_of_arguments hx hf ih [t, name, t'] (by omega)
      fun h h' ↦ .filterWith ht ht' h h'
  · rw [Bool.not_eq_true] at hparen
    refine .of_not_peekIs hparen rfl namedFilter_of_other (ih c _ hn) ?_
    rintro ts rest - hnone ⟨e', d, hd, h⟩
    exact ⟨e', d, hd, .filter ht hnone h⟩

end Suffixes

/-- Suffixes fail in the arguments of one of them. A pipe at the end of the stream does not fail:
the filter has its name from there. -/
theorem fails_moreSuffixes (c : Cursor) (e : Expr) :
    Fails (· = .unexpected) (Can (bound + 1) (.suffixes e)) (moreSuffixes x e) c := by
  have hx' := exact_arguments hx
  induction hn : c.ahead.length using Nat.strong_induction_on generalizing c e with
  | _ n ih =>
    subst hn
    have ih' := fun (c' : Cursor) (e : Expr) hlt ↦ ih c'.ahead.length hlt c' e rfl
    by_cases hparen : c.peekIs "(" = true
    · refine .skip_of_peekIs hparen (moreSuffixes_of_parenthesis hx'.advances) fun {t} ht ↦ ?_
      have hle := c.length_ahead_skip
      exact fails_suffix_of_arguments hx hf ih' [t] (by omega) fun h h' ↦ .call ht h h'
    rw [Bool.not_eq_true] at hparen
    by_cases hpipe : c.peekIs "|" = true
    · cases hname : c.skip.terminals with
      | nil =>
        have hahead : c.skip.ahead = [] := List.map_eq_nil_iff.1 hname
        have hend := Cursor.peekIs_of_ahead_eq_nil hahead
        have hok : moreSuffixes x e c = .ok (.filter c.skip.peek.text [e]) c.skip := by
          rw [moreSuffixes_of_pipe hx'.advances hpipe, pipedFilter_apply,
            Cursor.skip_of_ahead_eq_nil hahead, namedFilter_of_other (hend _),
            moreSuffixes_of_other (hend _) (hend _)]
        exact .of_ok hok
      | cons name us =>
        have hskip := Cursor.skip_of_terminals hname
        obtain ⟨k, hk, hk'⟩ := exists_length_ahead hpipe
        have hlt := c.skip.length_ahead_skip
        refine .skip_of_peekIs hpipe (moreSuffixes_of_pipe hx'.advances) fun ht ↦
          .skip (by rw [hname, hskip]) (fun {c₁} hc₁ ↦ ?_)
            (fails_namedFilter hx hf ih' (by omega) e ht name).fails_anyReason
        obtain ⟨vs, hvs⟩ := List.head?_eq_some_iff.1 hc₁
        rw [pipedFilter_apply, Cursor.text_peek_of_terminals hvs]
    · rw [Bool.not_eq_true] at hpipe
      exact .of_ok (moreSuffixes_of_other hparen hpipe)

end Expression

end List

/-- What is known of the productions of a level within which `limit` levels may be open. -/
structure NestedFails (limit : Nat) (inner : Grammar.Nested Reading) : Prop where
  /-- No level is left for the expressions, or else they fail at their beginning only for want of
  an operand. -/
  expression : inner.expression = Grammar.tooDeep ∨
    ∀ c, Fails (· = .unexpected) (Can (limit + 1) .expression) inner.expression c
  /-- The operands fail for any reason. -/
  operand : ∀ c, Fails anyReason (Can limit .operand) inner.operand c

theorem NestedFails.expression_any {inner : Grammar.Nested Reading} (h : NestedFails limit inner)
    (c : Cursor) : Fails anyReason (Can (limit + 1) .expression) inner.expression c := by
  rcases h.expression with heq | hf
  · rw [heq]
    exact .tooDeep
  · exact (hf c).fails_anyReason

/-! ## Exact readings -/

theorem exact_expression (limit : Nat) :
    Exact (limit + 1) .expression (Grammar.within limit : Grammar.Nested Reading).expression where
  sound c := (sound_within c.stop limit).expression rfl
  complete c := (complete_within c.stop limit).expression rfl
  least _ := rfl
  levels _ := List.nil_subset _

theorem exact_chains (limit : Nat) {levels : List (List (String × BinaryOp))}
    (hlevels : levels ⊆ BinaryOp.levels) : Exact (limit + 1) (.chain levels)
      (levels.foldr Grammar.chain (Grammar.operand (Grammar.within limit))) where
  sound c := sound_chains (sound_operand (sound_within c.stop limit)) levels rfl
  complete c := complete_chains (complete_operand (complete_within c.stop limit)) levels rfl
  least _ := rfl
  levels _ := hlevels

theorem exact_ternary (limit : Nat) :
    Exact (limit + 1) .ternary (Grammar.ternary (Grammar.within limit)) where
  sound c := sound_ternary (sound_within c.stop limit) rfl
  complete c := complete_ternary (complete_within c.stop limit) rfl
  least _ := rfl
  levels _ := List.nil_subset _

section Level

variable (hf : NestedFails limit (Grammar.within limit))
include hf

/-! ## Operands -/

theorem fails_simpleOperand (hparen : c.peekIs "(" = false) (hbracket : c.peekIs "[" = false) :
    Fails (· = .unexpected) (Can (limit + 1) .operand)
      (Grammar.operand (Grammar.within limit)) c := by
  have hother : ∀ {c₁ : Cursor}, c₁.terminals.head? = c.terminals.head? →
      (Grammar.operand (Grammar.within limit) : Reading Expr) c₁ =
        (Grammar.simpleOperand (Grammar.within limit).operand : Reading Expr) c₁ := by
    intro c₁ hc₁
    refine operand_of_other ?_ ?_
    · rw [Cursor.peekIs_congr hc₁, hparen]
    · rw [Cursor.peekIs_congr hc₁, hbracket]
  have hname : ∀ {rest}, Closes rest → Can (limit + 1) .operand (someName :: rest) rest :=
    fun _ ↦ ⟨.name "a", 0, Nat.succ_pos _, Derives.operand_name (by decide) _⟩
  cases hkind : c.peek.kind with
  | symbol =>
    have hne : c.peek.kind ≠ .eof := by simp [hkind]
    have hts := Cursor.terminals_of_kind_ne_eof hne
    cases hop : UnaryOp.ofSpelling? c.peek.text with
    | some op =>
      have hstep : ∀ {c₁ : Cursor}, c₁.terminals.head? = some c.peek.terminal →
          (Grammar.operand (Grammar.within limit) : Reading Expr) c₁ =
            ((Grammar.within limit).operand >>= fun a ↦ pure (Expr.unary op a) : Reading Expr)
              c₁.skip := by
        intro c₁ hc₁
        have hhead : c₁.terminals.head? = c.terminals.head? := by rw [hc₁, hts, List.head?_cons]
        rw [hother hhead]
        refine simpleOperand_of_symbol ?_ ?_
        · rw [Cursor.kind_peek_congr hhead, hkind]
        · rw [Cursor.text_peek_congr hhead hne, hop]
      refine .skip hts hstep (.map _ ((hf.operand _).mono id ?_))
      rintro ts rest - ⟨e, d, hd, h⟩
      exact ⟨.unary op e, d + 1, by omega, .unary hkind hop h⟩
    | none =>
      refine .unexpected (fun {c₁} hc₁ ↦ ?_) hname
      rw [hother hc₁, simpleOperand_apply]
      simp only [Cursor.kind_peek_congr hc₁, Cursor.text_peek_congr hc₁ hne, hkind, hop]
  | number =>
    cases hv : Literal.ofNumber? c.peek.text.toList with
    | some v => exact .of_ok ((hother rfl).trans (simpleOperand_of_number hkind hv))
    | none =>
      have hne : c.peek.kind ≠ .eof := by simp [hkind]
      refine .unexpected (fun {c₁} hc₁ ↦ ?_) hname
      rw [hother hc₁, simpleOperand_apply]
      simp only [Cursor.kind_peek_congr hc₁, Cursor.text_peek_congr hc₁ hne, hkind, hv]
  | string => exact .of_ok ((hother rfl).trans (simpleOperand_of_string hkind))
  | identifier => exact .of_ok ((hother rfl).trans (simpleOperand_of_identifier hkind))
  | eof =>
    refine .unexpected (fun {c₁} hc₁ ↦ ?_) hname
    rw [hother hc₁, simpleOperand_apply]
    simp only [Cursor.kind_peek_congr hc₁, hkind]

theorem fails_operand (c : Cursor) : Fails (· = .unexpected) (Can (limit + 1) .operand)
    (Grammar.operand (Grammar.within limit)) c := by
  have hx := exact_expression limit
  by_cases hparen : c.peekIs "(" = true
  · refine .skip_of_peekIs hparen operand_of_parenthesis fun {t} ht ↦ ?_
    have hvs : Seals (Can (limit + 1) .expression) (fun ts ↦ Can (limit + 1) .operand (t :: ts))
        [symbol ")"] := by
      refine .symbol (by decide) ?_
      rintro ts rest - ⟨e, d, hd, h⟩
      exact ⟨e, d, hd, .parentheses ht h rfl⟩
    refine .bind hx (hf.expression_any _) hvs fun {e c'} _ ↦ ?_
    refine .expect (by decide) [] (List.forall_mem_nil _) ?_ fun _ ↦ .of_ok rfl
    exact fun _ d ts hd h ↦ ⟨e, d, hd, .parentheses ht h rfl⟩
  rw [Bool.not_eq_true] at hparen
  by_cases hbracket : c.peekIs "[" = true
  · refine .skip_of_peekIs hbracket
      (fun hc₁ ↦ operand_of_bracket (Cursor.peekIs_eq_false hc₁ (by decide)) hc₁) fun ht ↦
      .map _ ((fails_elements hx hf.expression _).mono id ?_)
    rintro ts rest - ⟨es, d, hd, h⟩
    exact ⟨.array es, d, hd, .array ht h⟩
  · rw [Bool.not_eq_true] at hbracket
    exact fails_simpleOperand hf hparen hbracket

omit hf in
/-- Operators and operands after an operand fail in one of the operands. -/
theorem fails_moreOperands {next : Reading Expr} {operators : List (String × BinaryOp)}
    {tighter : List (List (String × BinaryOp))} (hmem : operators ∈ BinaryOp.levels)
    (hx : Exact (bound + 1) (.chain tighter) next)
    (hf : ∀ c, Fails (· = .unexpected) (Can (bound + 1) (.chain tighter)) next c) (c : Cursor)
    (left : Expr) : Fails (· = .unexpected) (Can (bound + 1) (.chainRest operators tighter left))
      (moreOperands operators next left) c := by
  induction hn : c.ahead.length using Nat.strong_induction_on generalizing c left with
  | _ n ih =>
    subst hn
    cases hop : operator? operators c.terminals with
    | none => exact .of_ok (moreOperands_of_none hop)
    | some op =>
      cases hts : c.terminals with
      | nil => simp [hts] at hop
      | cons t ts =>
        rw [hts] at hop
        have hop' : ∀ us, us.head? = some t → operator? operators us = some op := by
          intro us hus
          simpa only [operator?, begins, hus, List.head?_cons] using hop
        have hvs : Seals (Can (bound + 1) (.chain tighter))
            (fun ts ↦ Can (bound + 1) (.chainRest operators tighter left) (t :: ts)) [] := by
          refine .nil ?_
          rintro ts rest hrest ⟨right, d, hd, h⟩
          exact ⟨_, max d 0, by omega,
            .chainMore (hop' _ rfl) h (.chainEnd (hrest.operator operators hmem))⟩
        refine .skip (by rw [hts, Cursor.skip_of_terminals hts])
          (fun hc₁ ↦ moreOperands_of_some hx.advances (hop' _ hc₁)) ?_
        refine .bind hx (hf _).fails_anyReason hvs fun {right c'} hright ↦ ?_
        have hlt := hx.advances hright
        rw [Cursor.length_ahead_skip] at hlt
        refine (ih _ (by omega) c' _ rfl).mono Reason.plain_of_eq ?_
        rintro ts' rest - ⟨e, d', hd', h'⟩ d us hd h
        exact ⟨e, max d d', by omega, .chainMore (hop' _ rfl) h h'⟩

theorem fails_chains {levels : List (List (String × BinaryOp))}
    (hlevels : levels ⊆ BinaryOp.levels) (c : Cursor) :
    Fails (· = .unexpected) (Can (limit + 1) (.chain levels))
      (levels.foldr Grammar.chain (Grammar.operand (Grammar.within limit))) c := by
  induction levels generalizing c with
  | nil =>
    refine (fails_operand hf c).mono id ?_
    rintro ts rest - ⟨e, d, hd, h⟩
    exact ⟨e, d, hd, .single h⟩
  | cons operators tighter ih =>
    obtain ⟨hmem, htighter⟩ := List.cons_subset.1 hlevels
    have hx := exact_chains limit htighter
    have hvs : Seals (Can (limit + 1) (.chain tighter))
        (Can (limit + 1) (.chain (operators :: tighter))) [] := by
      refine .nil ?_
      rintro ts rest hrest ⟨left, d, hd, h⟩
      exact ⟨left, max d 0, by omega, .chain h (.chainEnd (hrest.operator operators hmem))⟩
    refine .bind hx (ih htighter c) hvs fun {left c'} _ ↦ ?_
    refine (fails_moreOperands hmem hx (ih htighter) c' left).mono Reason.plain_of_eq ?_
    rintro ts rest - ⟨e, d', hd', h'⟩ d us hd h
    exact ⟨e, max d d', by omega, .chain h h'⟩

/-! ## Choices -/

/-- A choice without its second branch is completed with a name for it. -/
theorem fails_ternary (c : Cursor) : Fails (· = .unexpected) (Can (limit + 1) .ternary)
    (Grammar.ternary (Grammar.within limit)) c := by
  have hx := exact_expression limit
  have hvs : Seals (Can (limit + 1) (.chain BinaryOp.levels)) (Can (limit + 1) .ternary) [] := by
    refine .nil ?_
    rintro ts rest hrest ⟨e, d, hd, h⟩
    exact ⟨e, d, hd, .noChoice h hrest.question⟩
  refine .bind (exact_chains limit (List.Subset.refl _))
    (fails_chains hf (List.Subset.refl _) c) hvs fun {e c'} _ ↦ ?_
  by_cases hquestion : c'.peekIs "?" = true
  · refine .skip_of_peekIs hquestion (fun hc₁ ↦ accept_bind_of_true hc₁ _) fun {t} ht ↦ ?_
    rw [if_pos rfl]
    -- the level of the first branch is there for the name, too
    have hmend : ∀ {a d us rest}, Closes rest → d < limit + 1 →
        Derives none d (.expression a) us (symbol ":" :: someName :: rest) →
        ∀ {d' ts}, d' < limit + 1 → Derives none d' (.chain BinaryOp.levels e) ts (t :: us) →
          Can (limit + 1) .ternary ts rest := by
      intro a d us rest hrest hd h d' ts hd' h'
      have hpos := h.pos_of_expression
      exact ⟨_, max d' (max d 1), by omega, .choice h' ht h rfl (expression_someName hrest)⟩
    have hvs' : Seals (Can (limit + 1) .expression)
        (fun us rest ↦ ∀ {d' ts}, d' < limit + 1 →
          Derives none d' (.chain BinaryOp.levels e) ts (t :: us) →
          Can (limit + 1) .ternary ts rest)
        [symbol ":", someName] := by
      refine ⟨by decide, fun _ ↦ closes_symbol (by decide) _, ?_⟩
      rintro us rest hrest ⟨a, d, hd, h⟩
      exact hmend hrest hd h
    refine .bind hx (hf.expression_any _) hvs' fun {a c''} _ ↦ ?_
    refine .expect (by decide) [someName] (by decide) ?_ fun ht' ↦
      .map _ ((hf.expression_any _).mono id ?_)
    · exact fun hrest _ _ hd h ↦ hmend hrest hd h
    · rintro vs rest - ⟨b, d'', hd'', h''⟩ d us hd h d' ts hd' h'
      exact ⟨_, max d' (max d d''), by omega, .choice h' ht h ht' h''⟩
  · rw [Bool.not_eq_true] at hquestion
    exact .of_ok (accept_bind_of_false hquestion _)

theorem fails_expression (c : Cursor) : Fails (· = .unexpected) (Can (limit + 2) .expression)
    (Grammar.expression (Grammar.within limit)) c := by
  have hvs : Seals (Can (limit + 1) .ternary) (Can (limit + 2) .expression) [] := by
    refine .nil ?_
    rintro ts rest hrest ⟨e, d, hd, h⟩
    exact ⟨e, max d 0 + 1, by omega,
      .expression h (.noSuffix hrest.parenthesis hrest.pipe)⟩
  refine .bind (exact_ternary limit) (fails_ternary hf c) hvs fun {e c'} _ ↦ ?_
  refine (fails_moreSuffixes (exact_expression limit) hf.expression c' e).mono
    Reason.plain_of_eq ?_
  rintro ts rest - ⟨e', d', hd', h'⟩ d us hd h
  exact ⟨e', max d d' + 1, by omega, .expression h h'⟩

end Level

/-! ## All levels -/

/-- What is known of failures is known within any limit. -/
theorem fails_within (limit : Nat) : NestedFails limit (Grammar.within limit) := by
  induction limit with
  | zero => exact ⟨.inl rfl, fun _ ↦ .tooDeep⟩
  | succ limit ih =>
    exact ⟨.inr (fails_expression ih), fun c ↦ (fails_operand ih c).fails_anyReason⟩

end Reading

end TemplateExpr
