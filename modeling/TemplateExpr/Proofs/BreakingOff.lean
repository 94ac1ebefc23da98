import TemplateExpr.Proofs.Streams
import TemplateExpr.Proofs.Viability
import TemplateExpr.Proofs.WrittenName

/-!
# Streams that break off

Two streams are read alongside each other: one that breaks off, and one that goes on with a string
where the other one ends. A string is no delimiter and no operator, and so it is passed over as the
end token is, except where an operand has to come. So the two readings stay together until one of
them meets that place, and there the stream that breaks off is refused at its end
(`Reading.along_expression`).

## Results and not runs

What is carried through the productions is a relation between the two results (`Alongside`): both
succeed with the same value at places that correspond, or both fail, or the first one has failed for
want of an operand and nothing more is known of the second one. The last case absorbs whatever comes
after it, so a sequence never has to be compared beyond that place.

## Pipes at the end

Where the tokens end with a pipe, the string could be the name of a filter, and that is another
matter (`Derives.of_pipe_iff`). So the terminals are asked to end without one, which is kept as they
are passed. It is used in one production only, after the pipe of a filter.
-/

namespace TemplateExpr

open Terminal

namespace Reading

variable {α β : Type} {s : String} {more : List Terminal} {c c' : Cursor}

/-! ## Cursors alongside each other -/

/-- The terminals of one cursor are those of another one with a string and any others after them.
The string is not the name of a filter. -/
structure Prolongs (s : String) (more : List Terminal) (c c' : Cursor) : Prop where
  /-- There is no pipe before the string. -/
  ends : EndsWithoutPipe c.terminals
  /-- The string and the others come after the terminals. -/
  terminals_eq : c'.terminals = c.terminals ++ Derives.nameAtEnd s :: more

namespace Prolongs

theorem head? (h : Prolongs s more c c') (hne : c.terminals ≠ []) :
    c'.terminals.head? = c.terminals.head? := by
  rw [h.terminals_eq, List.head?_append_of_ne_nil _ hne]

/-- A string is read as no delimiter, and neither is the end token. -/
theorem peekIs (h : Prolongs s more c c') (lexeme : String) :
    c'.peekIs lexeme = c.peekIs lexeme := by
  by_cases hne : c.terminals = []
  · have hs := h.terminals_eq
    rw [hne, List.nil_append] at hs
    rw [Cursor.peekIs_of_terminals hs, Cursor.peekIs_eq_begins, hne]
    rfl
  · exact Cursor.peekIs_congr (h.head? hne) lexeme

theorem peekIs_cases (h : Prolongs s more c c') (lexeme : String) :
    c.peekIs lexeme = true ∧ c'.peekIs lexeme = true ∨
      c.peekIs lexeme = false ∧ c'.peekIs lexeme = false := by
  rw [h.peekIs]
  cases c.peekIs lexeme with
  | true => exact .inl ⟨rfl, rfl⟩
  | false => exact .inr ⟨rfl, rfl⟩

theorem operator? (h : Prolongs s more c c') (operators : List (String × BinaryOp)) :
    Terminal.operator? operators c'.terminals = Terminal.operator? operators c.terminals := by
  simp only [Terminal.operator?, ← Cursor.peekIs_eq_begins, h.peekIs]

theorem skip (h : Prolongs s more c c') (hne : c.terminals ≠ []) :
    Prolongs s more c.skip c'.skip := by
  obtain ⟨t, ts, hts⟩ := List.exists_cons_of_ne_nil hne
  have hs := h.terminals_eq
  rw [hts, List.cons_append] at hs
  constructor
  · rw [Cursor.skip_of_terminals hts]
    exact h.ends.of_suffix (hts ▸ List.suffix_cons t ts)
  · rw [Cursor.skip_of_terminals hts, Cursor.skip_of_terminals hs]

theorem skip_of_peekIs (h : Prolongs s more c c') {lexeme : String} (hc : c.peekIs lexeme = true) :
    Prolongs s more c.skip c'.skip := by
  obtain ⟨t, hts, -⟩ := Cursor.terminals_of_peekIs hc
  exact h.skip (by simp [hts])

end Prolongs

/-! ## Results alongside each other -/

/-- Two results alongside each other: of the same value, or both of an error, unless the first one
is that no operand has come before the end. -/
inductive Alongside (s : String) (more : List Terminal) :
    EStateM.Result ParseError Cursor α → EStateM.Result ParseError Cursor α → Prop where
  /-- The same has been read. -/
  | ok {a : α} {c c' : Cursor} (h : Prolongs s more c c') : Alongside s more (.ok a c) (.ok a c')
  /-- The end has come in the place of an operand. -/
  | wants {c : Cursor} {r : EStateM.Result ParseError Cursor α} (h : c.terminals = []) :
      Alongside s more (.error (.unexpectedToken c.peek) c) r
  /-- Neither has been read. -/
  | fails {e e' : ParseError} {c c' : Cursor} : Alongside s more (.error e c) (.error e' c')

/-- A reading comes to results alongside each other at cursors that are. -/
def Along (x : Reading α) : Prop :=
  ∀ {s more c c'}, Prolongs s more c c' → Alongside s more (x c) (x c')

namespace Alongside

theorem of_eq {x x' : Reading α} {d d' : Cursor} (hx : x c = x' d) (hx' : x c' = x' d')
    (h : Alongside s more (x' d) (x' d')) : Alongside s more (x c) (x c') := by
  rwa [hx, hx']

theorem bind {x : Reading α} {f : α → Reading β} (h : Alongside s more (x c) (x c'))
    (hf : ∀ {a c₁ c₁'}, x c = .ok a c₁ → Prolongs s more c₁ c₁' →
      Alongside s more (f a c₁) (f a c₁')) :
    Alongside s more ((x >>= f) c) ((x >>= f) c') := by
  generalize hr : x c = r at h
  generalize hr' : x c' = r' at h
  cases h with
  | ok h =>
    rw [bind_of_ok hr, bind_of_ok hr']
    exact hf hr h
  | wants h =>
    rw [bind_of_error hr]
    exact .wants h
  | fails =>
    rw [bind_of_error hr, bind_of_error hr']
    exact .fails

theorem map {x : Reading α} (g : α → β) (h : Alongside s more (x c) (x c')) :
    Alongside s more ((x >>= fun a ↦ pure (g a)) c) ((x >>= fun a ↦ pure (g a)) c') :=
  h.bind fun _ hc ↦ .ok hc

end Alongside

/-! ## Delimiters -/

theorem along_expect (lexeme : String) : Along (Grammar.expect lexeme) := by
  intro s more c c' h
  rw [expect_apply, expect_apply, h.peekIs]
  by_cases hc : c.peekIs lexeme = true
  · rw [if_pos hc, if_pos hc]
    exact .ok (h.skip_of_peekIs hc)
  · rw [if_neg hc, if_neg hc]
    exact .fails

/-! ## Lists -/

section List

variable {x : Reading Expr} (hx : Along x) (hadvances : Advances x)
include hx hadvances

theorem along_moreItems : Along (moreItems x) := by
  intro s more c c' h
  induction hn : c.ahead.length using Nat.strong_induction_on generalizing c c' with
  | _ n ih =>
    subst hn
    rcases h.peekIs_cases "," with ⟨hcomma, hcomma'⟩ | ⟨hcomma, hcomma'⟩
    · refine .of_eq (moreItems_of_comma hadvances hcomma) (moreItems_of_comma hadvances hcomma') ?_
      refine (hx (h.skip_of_peekIs hcomma)).bind fun ha hc ↦ (ih _ ?_ hc rfl).map _
      have hlt := hadvances ha
      rw [Cursor.length_ahead_skip] at hlt
      omega
    · rw [moreItems_of_other hcomma, moreItems_of_other hcomma']
      exact .ok h

theorem along_list : Along (Grammar.list x) := by
  intro s more c c' h
  rw [list_eq_moreItems]
  exact (hx h).bind fun _ hc ↦ (along_moreItems hx hadvances hc).map _

theorem along_arguments : Along (Grammar.arguments x) := by
  intro s more c c' h
  rcases h.peekIs_cases ")" with ⟨hclose, hclose'⟩ | ⟨hclose, hclose'⟩
  · rw [arguments_of_parenthesis hclose, arguments_of_parenthesis hclose']
    exact .ok (h.skip_of_peekIs hclose)
  · refine .of_eq (arguments_of_other hclose) (arguments_of_other hclose') ?_
    exact (along_list hx hadvances h).bind fun _ hc ↦ (along_expect ")" hc).map _

theorem along_moreElements : Along (moreElements x) := by
  intro s more c c' h
  induction hn : c.ahead.length using Nat.strong_induction_on generalizing c c' with
  | _ n ih =>
    subst hn
    rcases h.peekIs_cases "]" with ⟨hclose, hclose'⟩ | ⟨hclose, hclose'⟩
    · rw [moreElements_of_bracket hclose, moreElements_of_bracket hclose']
      exact .ok (h.skip_of_peekIs hclose)
    · refine .of_eq (moreElements_of_other hadvances hclose)
        (moreElements_of_other hadvances hclose') ?_
      refine (hx h).bind fun {e c₁ c₁'} he hc ↦ ?_
      have hlt := hadvances he
      have hle := c₁.length_ahead_skip
      rcases hc.peekIs_cases "," with ⟨hcomma, hcomma'⟩ | ⟨hcomma, hcomma'⟩
      · refine .of_eq (accept_bind_of_true hcomma _) (accept_bind_of_true hcomma' _) ?_
        exact (ih _ (by omega) (hc.skip_of_peekIs hcomma) rfl).map _
      · refine .of_eq (accept_bind_of_false hcomma _) (accept_bind_of_false hcomma' _) ?_
        exact (ih _ (by omega) hc rfl).map _

/-! ## Calls and filters -/

/-- After a pipe there is a token for the name, because the tokens do not end with a pipe. -/
theorem along_moreSuffixes (hadvances' : Advances (Grammar.arguments x)) (e : Expr) :
    Along (moreSuffixes x e) := by
  intro s more c c' h
  have hargs : Along (Grammar.arguments x) := along_arguments hx hadvances
  induction hn : c.ahead.length using Nat.strong_induction_on generalizing c c' e with
  | _ n ih =>
    subst hn
    rcases h.peekIs_cases "(" with ⟨hparen, hparen'⟩ | ⟨hparen, hparen'⟩
    · refine .of_eq (moreSuffixes_of_parenthesis hadvances' hparen)
        (moreSuffixes_of_parenthesis hadvances' hparen') ?_
      refine (hargs (h.skip_of_peekIs hparen)).bind fun hes hc ↦ ih _ ?_ _ hc rfl
      have hlt := hadvances' hes
      rw [Cursor.length_ahead_skip] at hlt
      omega
    rcases h.peekIs_cases "|" with ⟨hpipe, hpipe'⟩ | ⟨hpipe, hpipe'⟩
    · obtain ⟨t, hts, ht⟩ := Cursor.terminals_of_peekIs hpipe
      have hne : c.skip.terminals ≠ [] := by
        intro hnil
        rw [hnil] at hts
        cases (h.ends t (by rw [hts]; rfl)).symm.trans ht
      have hskip := h.skip_of_peekIs hpipe
      have hname := hskip.skip hne
      have htext := Cursor.text_peek_congr (hskip.head? hne)
        (mt Cursor.kind_peek_eq_eof_iff.1 hne)
      obtain ⟨k, hk, hk'⟩ := exists_length_ahead hpipe
      have hle := c.skip.length_ahead_skip
      rw [moreSuffixes_of_pipe hadvances' hpipe, moreSuffixes_of_pipe hadvances' hpipe',
        pipedFilter_apply, pipedFilter_apply, htext]
      rcases hname.peekIs_cases "(" with ⟨hargument, hargument'⟩ | ⟨hargument, hargument'⟩
      · refine .of_eq (namedFilter_of_parenthesis hargument)
          (namedFilter_of_parenthesis hargument') ?_
        refine (hargs (hname.skip_of_peekIs hargument)).bind fun hes hc ↦ ih _ ?_ _ hc rfl
        have hlt := hadvances' hes
        rw [Cursor.length_ahead_skip] at hlt
        omega
      · rw [namedFilter_of_other hargument, namedFilter_of_other hargument']
        exact ih _ (by omega) _ hname rfl
    · rw [moreSuffixes_of_other hparen hpipe, moreSuffixes_of_other hparen' hpipe']
      exact .ok h

end List

/-! ## Operands, chains and choices -/

theorem along_simpleOperand {x : Reading Expr} (hx : Along x) :
    Along (Grammar.simpleOperand x) := by
  intro s more c c' h
  by_cases hne : c.terminals = []
  · have hwants : Grammar.simpleOperand x c = .error (.unexpectedToken c.peek) c := by
      rw [simpleOperand_apply, Cursor.kind_peek_eq_eof_iff.2 hne]
    rw [hwants]
    exact .wants hne
  · have hskip := h.skip hne
    rw [simpleOperand_apply, simpleOperand_apply, Cursor.kind_peek_congr (h.head? hne),
      Cursor.text_peek_congr (h.head? hne) (mt Cursor.kind_peek_eq_eof_iff.1 hne)]
    cases c.peek.kind with
    | symbol =>
      cases UnaryOp.ofSpelling? c.peek.text with
      | some op => exact (hx hskip).map _
      | none => exact .fails
    | number =>
      cases Literal.ofNumber? c.peek.text.toList with
      | some v => exact .ok hskip
      | none => exact .fails
    | string | identifier => exact .ok hskip
    | eof => exact .fails

theorem along_moreOperands {x : Reading Expr} (hx : Along x) (hadvances : Advances x)
    (operators : List (String × BinaryOp)) (left : Expr) :
    Along (moreOperands operators x left) := by
  intro s more c c' h
  induction hn : c.ahead.length using Nat.strong_induction_on generalizing c c' left with
  | _ n ih =>
    subst hn
    have hop' := h.operator? operators
    cases hop : Terminal.operator? operators c.terminals with
    | none =>
      rw [hop] at hop'
      rw [moreOperands_of_none hop, moreOperands_of_none hop']
      exact .ok h
    | some op =>
      rw [hop] at hop'
      refine .of_eq (moreOperands_of_some hadvances hop) (moreOperands_of_some hadvances hop') ?_
      have hne : c.terminals ≠ [] := by
        intro hnil
        rw [hnil, operator?_nil] at hop
        cases hop
      refine (hx (h.skip hne)).bind fun ha hc ↦ ih _ ?_ _ hc rfl
      have hlt := hadvances ha
      rw [Cursor.length_ahead_skip] at hlt
      omega

/-! ## Levels -/

/-- The productions of a level are read alongside themselves. -/
structure NestedAlong (inner : Grammar.Nested Reading) : Prop where
  expression : Along inner.expression
  operand : Along inner.operand

section Level

variable {limit : Nat} (hi : NestedAlong (Grammar.within limit))
include hi

theorem along_operand : Along (Grammar.operand (Grammar.within limit)) := by
  intro s more c c' h
  rcases h.peekIs_cases "(" with ⟨hparen, hparen'⟩ | ⟨hparen, hparen'⟩
  · refine .of_eq (operand_of_parenthesis hparen) (operand_of_parenthesis hparen') ?_
    exact (hi.expression (h.skip_of_peekIs hparen)).bind fun _ hc ↦ (along_expect ")" hc).map _
  rcases h.peekIs_cases "[" with ⟨hbracket, hbracket'⟩ | ⟨hbracket, hbracket'⟩
  · have harray : ∀ {c₁ : Cursor}, c₁.peekIs "(" = false → c₁.peekIs "[" = true →
        (Grammar.operand (Grammar.within limit) : Reading Expr) c₁ =
          (moreElements (Grammar.within limit).expression >>= fun es ↦ pure (Expr.array es))
            c₁.skip := operand_of_bracket
    refine .of_eq (harray hparen hbracket) (harray hparen' hbracket') ?_
    exact (along_moreElements hi.expression (exact_expression limit).advances
      (h.skip_of_peekIs hbracket)).map _
  · refine .of_eq (operand_of_other hparen hbracket) (operand_of_other hparen' hbracket') ?_
    exact along_simpleOperand hi.operand h

theorem along_chains {levels : List (List (String × BinaryOp))}
    (hlevels : levels ⊆ BinaryOp.levels) :
    Along (levels.foldr Grammar.chain (Grammar.operand (Grammar.within limit))) := by
  induction levels with
  | nil => exact along_operand hi
  | cons operators tighter ih =>
    intro s more c c' h
    have htighter := List.Subset.trans (List.subset_cons_self _ _) hlevels
    exact (ih htighter h).bind fun _ hc ↦
      along_moreOperands (ih htighter) (exact_chains limit htighter).advances operators _ hc

theorem along_ternary : Along (Grammar.ternary (Grammar.within limit)) := by
  intro s more c c' h
  refine (along_chains hi (List.Subset.refl _) h).bind fun {e c₁ c₁'} _ hc ↦ ?_
  rcases hc.peekIs_cases "?" with ⟨hquestion, hquestion'⟩ | ⟨hquestion, hquestion'⟩
  · refine .of_eq (accept_bind_of_true hquestion _) (accept_bind_of_true hquestion' _) ?_
    refine (hi.expression (hc.skip_of_peekIs hquestion)).bind fun _ hc ↦ ?_
    refine (along_expect ":" hc).bind fun _ hc ↦ ?_
    exact (hi.expression hc).map _
  · refine .of_eq (accept_bind_of_false hquestion _) (accept_bind_of_false hquestion' _) ?_
    exact .ok hc

theorem along_level : Along (Grammar.expression (Grammar.within limit)) := by
  intro s more c c' h
  refine (along_ternary hi h).bind fun _ hc ↦ ?_
  have hx := exact_expression limit
  exact along_moreSuffixes hi.expression hx.advances (exact_arguments hx).advances _ hc

end Level

/-! ## All limits -/

/-- The productions are read alongside themselves within any limit. -/
theorem along_within (limit : Nat) : NestedAlong (Grammar.within limit) := by
  induction limit with
  | zero => exact ⟨fun _ ↦ .fails, fun _ ↦ .fails⟩
  | succ limit ih => exact ⟨along_level ih, along_operand ih⟩

theorem along_expression : Along expression := (along_within maxNesting).expression

theorem along_list_expression : Along list :=
  along_list along_expression (exact_expression maxNesting).advances

end Reading

end TemplateExpr
