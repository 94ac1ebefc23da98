import TemplateExpr.Proofs.Derivation
import TemplateExpr.Reading

/-!
# Steps of a reading

What each production does at a cursor, by what the token there can be read as. The productions are
written with `do`, and the lemmas here are the only place where that is taken apart: one equation
for each branch of a production, whose right side is the reading that is left at the cursor that is
reached.

## Cursors and terminals

The terminals of a cursor tie a reading to the grammar as a relation. Every look at the next token
is a look at the first terminal, and the end token, which is never read as anything, is no terminal.
What the end token does have is a text, and that is not seen from the terminals
(`Cursor.text_peek_congr`).

## Branches

A branch is given by what the token at the cursor can be read as, and by what it cannot be read as
if the production looks for something else first. The equations do not say what a whole production
reads: the readings on their right sides are run by whoever uses them.
-/

namespace TemplateExpr

open Terminal

namespace Cursor

/-! ## Terminals of a cursor -/

/-- The terminals from the place on. -/
def terminals (c : Cursor) : List Terminal := c.ahead.map Token.terminal

theorem terminals_skip (c : Cursor) : c.skip.terminals = c.terminals.tail := by
  rw [terminals, ahead_skip, List.map_tail, terminals]

theorem peekIs_eq_begins (c : Cursor) (lexeme : String) :
    c.peekIs lexeme = begins c.terminals lexeme := by
  cases h : c.ahead with
  | nil => rw [peekIs_of_ahead_eq_nil h, terminals, h, List.map_nil, begins_nil]
  | cons t ts =>
    rw [terminals, h, List.map_cons, begins_cons, spells_terminal, peekIs, peek, h]

theorem operatorAt?_eq_operator? (operators : List (String × BinaryOp)) (c : Cursor) :
    Grammar.operatorAt? operators c = operator? operators c.terminals := by
  simp only [Grammar.operatorAt?, operator?, peekIs_eq_begins]

theorem terminals_of_peekIs {c : Cursor} {lexeme : String} (h : c.peekIs lexeme = true) :
    ∃ t, c.terminals = t :: c.skip.terminals ∧ t.spells lexeme = true := by
  rw [peekIs_eq_begins, begins_eq_true_iff] at h
  obtain ⟨t, us, hts, ht⟩ := h
  exact ⟨t, by rw [terminals_skip, hts, List.tail_cons], ht⟩

theorem peekIs_of_terminals {c : Cursor} {lexeme : String} {t : Terminal} {ts : List Terminal}
    (hts : c.terminals = t :: ts) : c.peekIs lexeme = t.spells lexeme := by
  rw [peekIs_eq_begins, hts, begins_cons]

/-- A token can be read as one thing only. -/
theorem peekIs_eq_false {c : Cursor} {lexeme lexeme' : String} (h : c.peekIs lexeme = true)
    (hne : lexeme ≠ lexeme') : c.peekIs lexeme' = false := by
  obtain ⟨t, hts, ht⟩ := terminals_of_peekIs h
  rw [peekIs_of_terminals hts, spells_eq_false ht hne]

theorem peekIs_of_head? {c : Cursor} {lexeme : String} {t : Terminal}
    (h : c.terminals.head? = some t) : c.peekIs lexeme = t.spells lexeme := by
  obtain ⟨ts, hts⟩ := List.head?_eq_some_iff.1 h
  exact peekIs_of_terminals hts

theorem peekIs_congr {c c' : Cursor} (h : c.terminals.head? = c'.terminals.head?)
    (lexeme : String) : c.peekIs lexeme = c'.peekIs lexeme := by
  rw [peekIs_eq_begins, peekIs_eq_begins, begins, h, ← begins]

theorem skip_of_terminals {c : Cursor} {t : Terminal} {ts : List Terminal}
    (hts : c.terminals = t :: ts) : c.skip.terminals = ts := by
  rw [terminals_skip, hts, List.tail_cons]

theorem terminal_peek_of_terminals {c : Cursor} {t : Terminal} {ts : List Terminal}
    (hts : c.terminals = t :: ts) : c.peek.terminal = t := by
  cases h : c.ahead with
  | nil => simp [terminals, h] at hts
  | cons u us =>
    simp only [terminals, h, List.map_cons, List.cons.injEq] at hts
    simp [peek, h, hts.1]

theorem kind_peek_of_terminals {c : Cursor} {t : Terminal} {ts : List Terminal}
    (hts : c.terminals = t :: ts) : c.peek.kind = t.kind :=
  congrArg Terminal.kind (terminal_peek_of_terminals hts)

theorem text_peek_of_terminals {c : Cursor} {t : Terminal} {ts : List Terminal}
    (hts : c.terminals = t :: ts) : c.peek.text = t.text :=
  congrArg Terminal.text (terminal_peek_of_terminals hts)

theorem terminals_of_kind_ne_eof {c : Cursor} (h : c.peek.kind ≠ .eof) :
    c.terminals = c.peek.terminal :: c.skip.terminals := by
  cases hc : c.ahead with
  | nil =>
    have : c.peek.isEof = true := by rw [isEof_peek, hc, List.isEmpty_nil]
    exact absurd (by simpa [Token.isEof] using this) h
  | cons t ts => simp [terminals, ahead_skip, peek, hc]

theorem kind_peek_eq_eof_iff {c : Cursor} : c.peek.kind = .eof ↔ c.terminals = [] := by
  have hpeek := c.isEof_peek
  constructor
  · intro h
    rw [Token.isEof, decide_eq_true h] at hpeek
    rw [terminals, List.isEmpty_iff.1 hpeek.symm, List.map_nil]
  · intro h
    rw [List.map_eq_nil_iff.1 h] at hpeek
    exact of_decide_eq_true hpeek

theorem kind_peek_congr {c c' : Cursor} (h : c.terminals.head? = c'.terminals.head?) :
    c.peek.kind = c'.peek.kind := by
  by_cases hkind : c'.peek.kind = .eof
  · rw [kind_peek_eq_eof_iff.1 hkind, List.head?_nil, List.head?_eq_none_iff] at h
    rw [hkind, kind_peek_eq_eof_iff, h]
  · rw [terminals_of_kind_ne_eof hkind] at h
    obtain ⟨ts, hts⟩ := List.head?_eq_some_iff.1 h
    exact kind_peek_of_terminals hts

/-- The text of the end token is not seen from the terminals. -/
theorem text_peek_congr {c c' : Cursor} (h : c.terminals.head? = c'.terminals.head?)
    (hkind : c'.peek.kind ≠ .eof) : c.peek.text = c'.peek.text := by
  rw [terminals_of_kind_ne_eof hkind] at h
  obtain ⟨ts, hts⟩ := List.head?_eq_some_iff.1 h
  exact text_peek_of_terminals hts

/-! ## The number of tokens left -/

theorem length_terminals (c : Cursor) : c.terminals.length = c.ahead.length :=
  List.length_map _

theorem length_ahead_skip (c : Cursor) : c.skip.ahead.length = c.ahead.length - 1 := by
  rw [ahead_skip, List.length_tail]

theorem terminals_eq_nil_of_length_le_zero {c : Cursor} (h : c.ahead.length ≤ 0) :
    c.terminals = [] := by
  rw [← List.length_eq_zero_iff, length_terminals]
  omega

end Cursor

namespace Derives

variable {atEnd : Option String} {d : Nat} {p : Phrase} {ts rest : List Terminal}

/-! ## Derivations at a cursor -/

/-- After a phrase that is not optional there is less ahead of the cursor. -/
theorem length_ahead_lt (h : Derives atEnd d p ts rest) (hp : p.least = 1) {c c' : Cursor}
    (hts : c.terminals = ts) (hrest : c'.terminals = rest) :
    c'.ahead.length < c.ahead.length := by
  have hlen := h.length_add_least_le
  rw [← hts, ← hrest, Cursor.length_terminals, Cursor.length_terminals, hp] at hlen
  omega

theorem of_suffixes_nil {e e' : Expr} (h : Derives atEnd d (.suffixes e e') [] rest) :
    d = 0 ∧ e' = e ∧ rest = [] := by
  cases h with
  | noSuffix => exact ⟨rfl, rfl, rfl⟩

end Derives

namespace Reading

variable {α β : Type}

/-! ## One step of a reading -/

theorem bind_of_ok {σ : Type} {x : EStateM ParseError σ α} {f : α → EStateM ParseError σ β}
    {c c' : σ} {a : α} (h : x c = .ok a c') : (x >>= f) c = f a c' := by
  show EStateM.bind x f c = _
  rw [EStateM.bind, h]

theorem bind_of_error {σ : Type} {x : EStateM ParseError σ α} {f : α → EStateM ParseError σ β}
    {c c' : σ} {e : ParseError} (h : x c = .error e c') : (x >>= f) c = .error e c' := by
  show EStateM.bind x f c = _
  rw [EStateM.bind, h]

theorem of_bind_eq_ok {x : Reading α} {f : α → Reading β} {c c'' : Cursor} {b : β}
    (h : (x >>= f) c = .ok b c'') : ∃ a c', x c = .ok a c' ∧ f a c' = .ok b c'' := by
  cases hx : x c with
  | ok a c' => exact ⟨a, c', rfl, by rwa [bind_of_ok hx] at h⟩
  | error e c' =>
    rw [bind_of_error hx] at h
    cases h

theorem accept_bind_of_true {c : Cursor} {lexeme : String} (h : c.peekIs lexeme = true)
    (f : Bool → Reading β) : (Grammar.accept lexeme >>= f) c = f true c.skip := by
  rw [bind_of_ok (accept_apply lexeme c), h, if_pos rfl]

theorem accept_bind_of_false {c : Cursor} {lexeme : String} (h : c.peekIs lexeme = false)
    (f : Bool → Reading β) : (Grammar.accept lexeme >>= f) c = f false c := by
  rw [bind_of_ok (accept_apply lexeme c), h, if_neg Bool.false_ne_true]

theorem expect_of_true {c : Cursor} {lexeme : String} (h : c.peekIs lexeme = true) :
    (Grammar.expect lexeme : Reading Unit) c = .ok () c.skip := by
  rw [expect_apply, if_pos h]

theorem of_expect_eq_ok {c c' : Cursor} {lexeme : String} {u : Unit}
    (h : (Grammar.expect lexeme : Reading Unit) c = .ok u c') :
    c.peekIs lexeme = true ∧ c' = c.skip := by
  rw [expect_apply] at h
  split at h
  · next hc => exact ⟨hc, by simpa [eq_comm] using h⟩
  · cases h

theorem of_pure_eq_ok {a b : α} {c c' : Cursor} (h : (pure a : Reading α) c = .ok b c') :
    b = a ∧ c' = c := by
  cases h
  exact ⟨rfl, rfl⟩

/-! ## The branches of the productions

What each production does at a cursor, by what the token there can be read as. -/

section Branches

variable {inner : Grammar.Nested Reading} {expression : Reading Expr} {c : Cursor}

theorem operand_of_parenthesis (h : c.peekIs "(" = true) :
    Grammar.operand inner c =
      (inner.expression >>= fun e ↦ Grammar.expect ")" >>= fun _ ↦ pure e) c.skip := by
  rw [Grammar.operand, accept_bind_of_true h]
  rfl

theorem operand_of_bracket (h : c.peekIs "(" = false) (h' : c.peekIs "[" = true) :
    Grammar.operand inner c =
      (Grammar.elements inner.expression c.skip.ahead.length >>= fun es ↦
        pure (Expr.array es)) c.skip := by
  rw [Grammar.operand, accept_bind_of_false h, if_neg Bool.false_ne_true,
    accept_bind_of_true h']
  rfl

theorem operand_of_other (h : c.peekIs "(" = false) (h' : c.peekIs "[" = false) :
    Grammar.operand inner c = Grammar.simpleOperand inner.operand c := by
  rw [Grammar.operand, accept_bind_of_false h, if_neg Bool.false_ne_true,
    accept_bind_of_false h', if_neg Bool.false_ne_true]

theorem simpleOperand_apply (operand : Reading Expr) (c : Cursor) :
    Grammar.simpleOperand operand c =
      match c.peek.kind with
      | .symbol =>
        match UnaryOp.ofSpelling? c.peek.text with
        | some op => (operand >>= fun a ↦ pure (Expr.unary op a)) c.skip
        | none => .error (.unexpectedToken c.peek) c
      | .number =>
        match Literal.ofNumber? c.peek.text.toList with
        | some v => .ok (.literal v) c.skip
        | none => .error (.unexpectedToken c.peek) c
      | .string => .ok (.string c.peek.text) c.skip
      | .identifier => .ok (Grammar.word c.peek.text) c.skip
      | .eof => .error (.unexpectedToken c.peek) c := by
  rw [Grammar.simpleOperand, bind_of_ok (peek_apply c)]
  cases c.peek.kind with
  | symbol => cases UnaryOp.ofSpelling? c.peek.text <;> rfl
  | number => cases Literal.ofNumber? c.peek.text.toList <;> rfl
  | string | identifier | eof => rfl

theorem simpleOperand_of_symbol {operand : Reading Expr} {op : UnaryOp}
    (hkind : c.peek.kind = .symbol) (hop : UnaryOp.ofSpelling? c.peek.text = some op) :
    Grammar.simpleOperand operand c = (operand >>= fun a ↦ pure (Expr.unary op a)) c.skip := by
  simp only [simpleOperand_apply, hkind, hop]

theorem simpleOperand_of_number {operand : Reading Expr} {v : Literal}
    (hkind : c.peek.kind = .number) (hv : Literal.ofNumber? c.peek.text.toList = some v) :
    Grammar.simpleOperand operand c = .ok (.literal v) c.skip := by
  simp only [simpleOperand_apply, hkind, hv]

theorem simpleOperand_of_string {operand : Reading Expr} (hkind : c.peek.kind = .string) :
    Grammar.simpleOperand operand c = .ok (.string c.peek.text) c.skip := by
  simp only [simpleOperand_apply, hkind]

theorem simpleOperand_of_identifier {operand : Reading Expr}
    (hkind : c.peek.kind = .identifier) :
    Grammar.simpleOperand operand c = .ok (Grammar.word c.peek.text) c.skip := by
  simp only [simpleOperand_apply, hkind]

/-! ## Suffixes -/

theorem suffixes_of_parenthesis {bound : Nat} {e : Expr} (h : c.peekIs "(" = true) :
    Grammar.suffixes expression (bound + 1) e c =
      (Grammar.arguments expression >>= fun es ↦
        Grammar.suffixes expression bound (.call (Grammar.callee e) es)) c.skip := by
  rw [Grammar.suffixes, accept_bind_of_true h]
  rfl

theorem suffixes_of_pipe {bound : Nat} {e : Expr} (h : c.peekIs "(" = false)
    (h' : c.peekIs "|" = true) (h'' : c.skip.skip.peekIs "(" = false) :
    Grammar.suffixes expression (bound + 1) e c =
      Grammar.suffixes expression bound (.filter c.skip.peek.text [e]) c.skip.skip := by
  rw [Grammar.suffixes, accept_bind_of_false h, if_neg Bool.false_ne_true,
    accept_bind_of_true h', if_pos rfl, bind_of_ok (peek_apply _), bind_of_ok (skip_apply _),
    accept_bind_of_false h'']
  rfl

theorem suffixes_of_pipe_parenthesis {bound : Nat} {e : Expr} (h : c.peekIs "(" = false)
    (h' : c.peekIs "|" = true) (h'' : c.skip.skip.peekIs "(" = true) :
    Grammar.suffixes expression (bound + 1) e c =
      (Grammar.arguments expression >>= fun es ↦
        Grammar.suffixes expression bound (.filter c.skip.peek.text (e :: es)))
        c.skip.skip.skip := by
  rw [Grammar.suffixes, accept_bind_of_false h, if_neg Bool.false_ne_true,
    accept_bind_of_true h', if_pos rfl, bind_of_ok (peek_apply _), bind_of_ok (skip_apply _),
    accept_bind_of_true h'']
  rfl

theorem suffixes_of_other {bound : Nat} {e : Expr} (h : c.peekIs "(" = false)
    (h' : c.peekIs "|" = false) :
    Grammar.suffixes expression (bound + 1) e c = .ok e c := by
  rw [Grammar.suffixes, accept_bind_of_false h, if_neg Bool.false_ne_true,
    accept_bind_of_false h']
  rfl

/-! ## Lists -/

theorem arguments_of_parenthesis (h : c.peekIs ")" = true) :
    Grammar.arguments expression c = .ok [] c.skip := by
  -- the look at the next token leaves the cursor where it is
  show (if c.peekIs ")" then _ else _ : Reading (List Expr)) c = _
  rw [if_pos h]
  show (Grammar.expect ")" >>= fun _ ↦ pure [] : Reading (List Expr)) c = _
  rw [bind_of_ok (expect_of_true h)]
  rfl

theorem arguments_of_other (h : c.peekIs ")" = false) :
    Grammar.arguments expression c =
      (Grammar.list expression >>= fun es ↦ Grammar.expect ")" >>= fun _ ↦ pure es) c := by
  show (if c.peekIs ")" then _ else _ : Reading (List Expr)) c = _
  rw [if_neg (by simp [h])]

theorem listRest_of_comma {bound : Nat} (h : c.peekIs "," = true) :
    Grammar.listRest expression (bound + 1) c =
      (expression >>= fun e ↦ Grammar.listRest expression bound >>= fun es ↦
        pure (e :: es)) c.skip := by
  rw [Grammar.listRest, accept_bind_of_true h]
  rfl

theorem listRest_of_other {bound : Nat} (h : c.peekIs "," = false) :
    Grammar.listRest expression (bound + 1) c = .ok [] c := by
  rw [Grammar.listRest, accept_bind_of_false h]
  rfl

theorem elements_of_bracket {bound : Nat} (h : c.peekIs "]" = true) :
    Grammar.elements expression (bound + 1) c = .ok [] c.skip := by
  rw [Grammar.elements, accept_bind_of_true h]
  rfl

theorem elements_of_other {bound : Nat} (h : c.peekIs "]" = false) :
    Grammar.elements expression (bound + 1) c =
      (expression >>= fun e ↦ Grammar.accept "]" >>= fun b ↦
        if b then pure [e]
        else Grammar.accept "," >>= fun _ ↦ Grammar.elements expression bound >>= fun es ↦
          pure (e :: es)) c := by
  rw [Grammar.elements, accept_bind_of_false h]
  rfl

/-! ## Chains -/

theorem chainRest_apply (operators : List (String × BinaryOp)) (next : Reading Expr)
    (bound : Nat) (left : Expr) :
    Grammar.chainRest operators next (bound + 1) left c =
      match operator? operators c.terminals with
      | some op =>
        (next >>= fun right ↦
          Grammar.chainRest operators next bound (.binary op left right)) c.skip
      | none => .ok left c := by
  rw [← Cursor.operatorAt?_eq_operator?]
  show (match Grammar.operatorAt? operators c with
    | some op => _
    | none => _ : Reading Expr) c = _
  cases Grammar.operatorAt? operators c <;> rfl

end Branches

end Reading

end TemplateExpr
