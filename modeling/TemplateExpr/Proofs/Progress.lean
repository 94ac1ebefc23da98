import TemplateExpr.Proofs.Cursors

/-!
# Progress

In the grammar a repetition ends when it has made as many rounds as there were tokens left, and so
nothing can go on for ever in it. Here are the same productions with repetitions that end for no
reason but their last round. How many rounds a repetition may make and how many levels may be open
is up to the caller, and an attempt that is not allowed enough of them is cut off and has no outcome
at all (`Attempt`). The limit of nesting is apart from that and may be left out.

## Tokens that are passed

No attempt leaves its stream, goes back in it or passes the end token, and one that succeeds has
passed a token, unless it may read nothing. An operand takes a token before anything is read inside
it, so every production that begins with an operand takes one, and so does every round of a
repetition that is followed by another round (`Attempt.progress_of_nestedKeeps`).

## Postconditions

All this is one statement about an attempt at a cursor (`Attempt.Keeps`) with a postcondition for
what it returns. Sequences and repetitions keep it, so for each production only its own steps are
looked at. The statement says nothing of an attempt that is cut off.
-/

namespace TemplateExpr

/-- A computation that moves a cursor and may fail. It may also be cut off, and then it has no
outcome. -/
abbrev Attempt := ExceptT ParseError (StateT Cursor Option)

namespace Attempt

variable {α β : Type}

/-- The outcome of an attempt and the cursor that it leaves, unless it is cut off. -/
def outcome? (u : Attempt α) (c : Cursor) : Option (Except ParseError α × Cursor) := u.run.run c

/-! ## Productions -/

def cutOff : Attempt α := ExceptT.mk fun _ ↦ none

/-- Rounds until one of them is the last, `n` at the most. -/
def rounds (round : α → Attempt (ForInStep α)) : (n : Nat) → α → Attempt α
  | 0, _ => cutOff
  | n + 1, a => do
    match ← round a with
    | .done a => return a
    | .yield a => rounds round n a

section Expression

variable (expression : Attempt Expr) (n : Nat)

def listRound (es : List Expr) : Attempt (ForInStep (List Expr)) := do
  let e ← expression
  if ← Grammar.accept "," then return .yield (es ++ [e])
  else return .done (es ++ [e])

def list : Attempt (List Expr) := rounds (listRound expression) n []

/-- The arguments of a call after its opening parenthesis, up to the closing one. -/
def arguments : Attempt (List Expr) := do
  let es ← if (← get).peekIs ")" then pure [] else list expression n
  Grammar.expect ")"
  return es

/-- The closing bracket, or an element and what comes after it: the closing bracket or perhaps a
comma. -/
def elementsRound (es : List Expr) : Attempt (ForInStep (List Expr)) := do
  if ← Grammar.accept "]" then return .done es
  else
    let e ← expression
    if ← Grammar.accept "]" then return .done (es ++ [e])
    else
      let _ ← Grammar.accept ","
      return .yield (es ++ [e])

/-- The elements of an array after its opening bracket, up to the closing one. -/
def elements : Attempt (List Expr) := rounds (elementsRound expression) n []

/-- A call or a filter after an expression, if there is one. -/
def suffixRound (e : Expr) : Attempt (ForInStep Expr) := do
  if ← Grammar.accept "(" then
    let es ← arguments expression n
    return .yield (.call (Grammar.callee e) es)
  else if ← Grammar.accept "|" then
    let t ← Grammar.peek
    Grammar.skip
    let es ← if ← Grammar.accept "(" then arguments expression n else pure []
    return .yield (.filter t.text (e :: es))
  else return .done e

def suffixes (e : Expr) : Attempt Expr := rounds (suffixRound expression n) n e

end Expression

/-! ## Operators and operands -/

section Chain

variable (operators : List (String × BinaryOp)) (next : Attempt Expr) (n : Nat)

/-- An operator and its right operand, if there is one. -/
def chainRound (left : Expr) : Attempt (ForInStep Expr) := do
  match Grammar.operatorAt? operators (← get) with
  | some op =>
    Grammar.skip
    let right ← next
    return .yield (.binary op left right)
  | none => return .done left

/-- Operators of one level and operands after the operand `left`. -/
def chainRest (left : Expr) : Attempt Expr := rounds (chainRound operators next) n left

/-- Operands with operators of one level between them. -/
def chain : Attempt Expr := do
  let left ← next
  chainRest operators next n left

end Chain

/-! ## Levels of productions -/

section Level

variable (inner : Grammar.Nested Attempt) (n : Nat)

/-- An operand of a binary operator. -/
def operand : Attempt Expr := do
  if ← Grammar.accept "(" then
    let e ← inner.expression
    Grammar.expect ")"
    return e
  else if ← Grammar.accept "[" then return .array (← elements inner.expression n)
  else Grammar.simpleOperand inner.operand

/-- Operands with operators of some levels between them, the loosest level first. -/
def chains (levels : List (List (String × BinaryOp))) : Attempt Expr :=
  levels.foldr (fun operators next ↦ chain operators next n) (operand inner n)

/-- A chain, or a choice that it decides. -/
def ternary : Attempt Expr := do
  let condition ← chains inner n BinaryOp.levels
  if ← Grammar.accept "?" then
    let thenBranch ← inner.expression
    Grammar.expect ":"
    let elseBranch ← inner.expression
    return .ternary condition thenBranch elseBranch
  else return condition

def expression : Attempt Expr := do
  let e ← ternary inner n
  suffixes inner.expression n e

/-- The productions of a level, given those of the next one. -/
def level : Grammar.Nested Attempt := ⟨expression inner n, operand inner n⟩

end Level

/-- The productions of a level, where repetitions may make `n` rounds and `calls` levels may be
open, itself included. Within a limit a level too many is an error. -/
def within (n : Nat) : (calls : Nat) → (limit : Option Nat) → Grammar.Nested Attempt
  | 0, _ => ⟨cutOff, cutOff⟩
  | _ + 1, some 0 => ⟨Grammar.tooDeep, Grammar.tooDeep⟩
  | calls + 1, some (limit + 1) => level (within n calls (some limit)) n
  | calls + 1, none => level (within n calls none) n

/-- An attempt after which no token but the end token may be left. -/
def toEnd (u : Attempt α) : Attempt α := do
  let a ← u
  Grammar.finish
  return a

/-! ## Sequences -/

variable {u : Attempt α} {f : α → Attempt β} {c c' : Cursor}

theorem outcome?_bind_of_ok {a : α} (h : outcome? u c = some (.ok a, c')) :
    outcome? (u >>= f) c = outcome? (f a) c' := by
  rw [outcome?, ExceptT.run_bind, StateT.run_bind]
  show (outcome? u c >>= _) = _
  rw [h]
  rfl

theorem outcome?_bind_of_error {e : ParseError} (h : outcome? u c = some (.error e, c')) :
    outcome? (u >>= f) c = some (.error e, c') := by
  rw [outcome?, ExceptT.run_bind, StateT.run_bind]
  show (outcome? u c >>= _) = _
  rw [h]
  rfl

theorem outcome?_bind_of_none (h : outcome? u c = none) : outcome? (u >>= f) c = none := by
  rw [outcome?, ExceptT.run_bind, StateT.run_bind]
  show (outcome? u c >>= _) = _
  rw [h]
  rfl

/-! ## What an attempt keeps to -/

/-- An attempt moves its cursor in the stream and gives no token back. If it succeeds, what it
returns and the cursor that it leaves are as they should be. -/
def Keeps (c : Cursor) (u : Attempt α) (post : α → Cursor → Prop) : Prop :=
  ∀ o c', outcome? u c = some (o, c') → c'.stream = c.stream ∧
    c'.ahead.length ≤ c.ahead.length ∧ ∀ a, o = .ok a → post a c'

/-- Tokens have been passed; how many depends on what is returned. -/
def Passes (least : α → Nat) (c : Cursor) (a : α) (c' : Cursor) : Prop :=
  c'.ahead.length + least a ≤ c.ahead.length

abbrev PassesOne (c : Cursor) : α → Cursor → Prop := Passes (fun _ ↦ 1) c

namespace Keeps

variable {post : α → Cursor → Prop} {post' : β → Cursor → Prop}

theorem of_outcome? {o : Except ParseError α} (ho : outcome? u c = some (o, c))
    (h : ∀ a, o = .ok a → post a c) : Keeps c u post := by
  intro o' c' ho'
  cases ho.symm.trans ho'
  exact ⟨rfl, le_rfl, h⟩

theorem pure {a : α} (h : post a c) : Keeps c (pure a) post :=
  of_outcome? rfl fun _ ha ↦ Except.ok.inj ha ▸ h

theorem throw (c : Cursor) (e : ParseError) : Keeps c (throw e : Attempt α) post :=
  of_outcome? rfl fun _ ha ↦ nomatch ha

theorem cutOff (c : Cursor) : Keeps c (cutOff : Attempt α) post := nofun

theorem bind (head : Keeps c u post)
    (tail : ∀ a c', c'.ahead.length ≤ c.ahead.length → post a c' → Keeps c' (f a) post') :
    Keeps c (u >>= f) post' := by
  intro o c₂ ho
  cases hu : outcome? u c with
  | none => cases (outcome?_bind_of_none hu).symm.trans ho
  | some r =>
    obtain ⟨r, c₁⟩ := r
    obtain ⟨hstream, hle, hpost⟩ := head r c₁ hu
    cases r with
    | error e =>
      cases (outcome?_bind_of_error hu).symm.trans ho
      exact ⟨hstream, hle, fun _ ha ↦ nomatch ha⟩
    | ok a =>
      rw [outcome?_bind_of_ok hu] at ho
      obtain ⟨hstream', hle', hpost'⟩ := tail a c₁ hle (hpost a rfl) o c₂ ho
      exact ⟨hstream'.trans hstream, hle'.trans hle, hpost'⟩

theorem mono {post' : α → Cursor → Prop} (h : Keeps c u post)
    (himp : ∀ a c', c'.ahead.length ≤ c.ahead.length → post a c' → post' a c') :
    Keeps c u post' := by
  intro o c' ho
  obtain ⟨hstream, hle, hpost⟩ := h o c' ho
  exact ⟨hstream, hle, fun a ha ↦ himp a c' hle (hpost a ha)⟩

theorem get {f : Cursor → Attempt β} (tail : Keeps c (f c) post') : Keeps c (get >>= f) post' :=
  tail

theorem peek {f : Token → Attempt β} (tail : Keeps c (f c.peek) post') :
    Keeps c (Grammar.peek >>= f) post' := tail

theorem skip {f : Unit → Attempt β} (tail : Keeps c.skip (f ()) post') :
    Keeps c (Grammar.skip >>= f) post' := by
  intro o c' ho
  obtain ⟨hstream, hle, hpost⟩ := tail o c' ho
  exact ⟨hstream.trans c.stream_skip, hle.trans c.length_ahead_skip_le, hpost⟩

theorem accept {lexeme : String} {f : Bool → Attempt β}
    (htrue : c.skip.ahead.length < c.ahead.length → Keeps c.skip (f true) post')
    (hfalse : Keeps c (f false) post') : Keeps c (Grammar.accept lexeme >>= f) post' := by
  rw [Grammar.accept_bind]
  refine get ?_
  split
  · next h => exact skip (htrue (Cursor.length_ahead_skip_lt (Cursor.isEof_peek_of_peekIs h)))
  · exact hfalse

theorem expect (c : Cursor) (lexeme : String) :
    Keeps c (Grammar.expect lexeme) (PassesOne c) := by
  refine get ?_
  split
  · next h =>
    have hlt := Cursor.length_ahead_skip_lt (Cursor.isEof_peek_of_peekIs h)
    rw [← bind_pure Grammar.skip]
    exact skip (pure hlt)
  · exact peek (throw c _)

theorem finish (c : Cursor) : Keeps c Grammar.finish (Passes (fun _ ↦ 0) c) := by
  refine get ?_
  split
  · exact peek (throw c _)
  · exact pure le_rfl

end Keeps

/-! ## Rounds -/

/-- How many tokens a round passes at least: one if it is followed by another round. -/
def again (least : Nat) : ForInStep α → Nat
  | .done _ => least
  | .yield _ => 1

/-- Rounds pass as many tokens as the last of them has to, since the others pass one at least. -/
theorem keeps_rounds {round : α → Attempt (ForInStep α)} {least : Nat}
    (hround : ∀ a c, Keeps c (round a) (Passes (again least) c)) (n : Nat) (a : α) (c : Cursor) :
    Keeps c (rounds round n a) (Passes (fun _ ↦ least) c) := by
  induction n generalizing a c with
  | zero => exact .cutOff c
  | succ n ih =>
    refine (hround a c).bind fun r c₁ hle hpass ↦ ?_
    cases r with
    | done b => exact .pure hpass
    | yield b =>
      exact (ih b c₁).mono fun _ c₂ _ hpass' ↦ hpass'.trans hle

section Expression

variable {expression : Attempt Expr} (h : ∀ c, Keeps c expression (PassesOne c)) {n : Nat}
include h

theorem keeps_listRound (es : List Expr) (c : Cursor) :
    Keeps c (listRound expression es) (Passes (again 1) c) := by
  refine (h c).bind fun e c₁ _ hpass ↦ ?_
  exact .accept (fun hlt ↦ .pure (hlt.le.trans_lt hpass)) (.pure hpass)

theorem keeps_list (c : Cursor) : Keeps c (list expression n) (PassesOne c) :=
  keeps_rounds (keeps_listRound h) n [] c

theorem keeps_arguments (c : Cursor) : Keeps c (arguments expression n) (PassesOne c) := by
  have hclose {es : List Expr} {c₁ : Cursor} (hle : c₁.ahead.length ≤ c.ahead.length) :
      Keeps c₁ (Grammar.expect ")" >>= fun _ ↦ pure es) (PassesOne c) :=
    (Keeps.expect c₁ ")").bind fun _ c₂ _ hpass ↦ .pure (hpass.trans hle)
  refine .get ?_
  split
  · exact hclose le_rfl
  · exact (keeps_list h c).bind fun es c₁ hle _ ↦ hclose hle

theorem keeps_elementsRound (es : List Expr) (c : Cursor) :
    Keeps c (elementsRound expression es) (Passes (again 1) c) := by
  refine .accept (fun hlt ↦ .pure hlt) ((h c).bind fun e c₁ _ hpass ↦ ?_)
  refine .accept (fun hlt ↦ .pure (hlt.le.trans_lt hpass)) ?_
  exact .accept (fun hlt ↦ .pure (hlt.le.trans_lt hpass)) (.pure hpass)

theorem keeps_elements (c : Cursor) : Keeps c (elements expression n) (PassesOne c) :=
  keeps_rounds (keeps_elementsRound h) n [] c

theorem keeps_suffixRound (e : Expr) (c : Cursor) :
    Keeps c (suffixRound expression n e) (Passes (again 0) c) := by
  refine .accept (fun hlt ↦ ?_) (.accept (fun hlt ↦ ?_) (.pure le_rfl))
  · exact (keeps_arguments h _).bind fun es c₁ hle _ ↦ .pure (hle.trans_lt hlt)
  · -- the name of a filter may be the end token, which is not passed
    have hname := c.skip.length_ahead_skip_le
    refine .peek (.skip (.accept (fun hlt' ↦ ?_) (.pure (hname.trans_lt hlt))))
    exact (keeps_arguments h _).bind fun es c₁ hle _ ↦
      .pure ((hle.trans (hlt'.le.trans hname)).trans_lt hlt)

theorem keeps_suffixes (e : Expr) (c : Cursor) :
    Keeps c (suffixes expression n e) (Passes (fun _ ↦ 0) c) :=
  keeps_rounds (keeps_suffixRound h) n e c

end Expression

section Chain

variable {operators : List (String × BinaryOp)} {next : Attempt Expr}
  (h : ∀ c, Keeps c next (PassesOne c)) {n : Nat}
include h

theorem keeps_chainRound (left : Expr) (c : Cursor) :
    Keeps c (chainRound operators next left) (Passes (again 0) c) := by
  refine .get ?_
  cases hop : Grammar.operatorAt? operators c with
  | none => exact .pure le_rfl
  | some op =>
    obtain ⟨entry, hfind, -⟩ := Option.map_eq_some_iff.1 hop
    have hpeek : (c.peekIs ∘ Prod.fst) entry = true := List.find?_some hfind
    have hlt := Cursor.length_ahead_skip_lt (Cursor.isEof_peek_of_peekIs hpeek)
    exact .skip ((h _).bind fun right c₁ hle _ ↦ .pure (hle.trans_lt hlt))

theorem keeps_chainRest (left : Expr) (c : Cursor) :
    Keeps c (chainRest operators next n left) (Passes (fun _ ↦ 0) c) :=
  keeps_rounds (keeps_chainRound h) n left c

theorem keeps_chain (c : Cursor) : Keeps c (chain operators next n) (PassesOne c) := by
  refine (h c).bind fun left c₁ _ hpass ↦ ?_
  exact (keeps_chainRest h left c₁).mono fun e c₂ _ hle ↦ (Nat.succ_le_succ hle).trans hpass

end Chain

/-! ## What the productions of a level keep to -/

/-- The productions of a level pass a token if they succeed. -/
structure NestedKeeps (inner : Grammar.Nested Attempt) : Prop where
  /-- The expressions do. -/
  expression (c : Cursor) : Keeps c inner.expression (PassesOne c)
  /-- The operands do. -/
  operand (c : Cursor) : Keeps c inner.operand (PassesOne c)

section Level

variable {inner : Grammar.Nested Attempt} (h : NestedKeeps inner) {n : Nat}
include h

theorem keeps_simpleOperand (c : Cursor) :
    Keeps c (Grammar.simpleOperand inner.operand) (PassesOne c) := by
  have hskip (hkind : c.peek.kind ≠ .eof) : c.skip.ahead.length < c.ahead.length :=
    Cursor.length_ahead_skip_lt (decide_eq_false hkind)
  have hfail : Keeps c Grammar.unexpected (PassesOne c) := .peek (.throw c _)
  refine .peek ?_
  cases hkind : c.peek.kind with
  | symbol =>
    cases UnaryOp.ofSpelling? c.peek.text with
    | none => exact hfail
    | some op =>
      have hlt := hskip (by simp [hkind])
      exact .skip ((h.operand _).bind fun e c₁ hle _ ↦ .pure (hle.trans_lt hlt))
  | number =>
    cases Literal.ofNumber? c.peek.text.toList with
    | none => exact hfail
    | some v => exact .skip (.pure (hskip (by simp [hkind])))
  | string | identifier => exact .skip (.pure (hskip (by simp [hkind])))
  | eof => exact hfail

theorem keeps_operand (c : Cursor) : Keeps c (operand inner n) (PassesOne c) := by
  refine .accept (fun hlt ↦ ?_) (.accept (fun hlt ↦ ?_) (keeps_simpleOperand h c))
  · refine (h.expression _).bind fun e c₁ hle _ ↦ ?_
    exact (Keeps.expect c₁ ")").bind fun _ c₂ hle' _ ↦ .pure ((hle'.trans hle).trans_lt hlt)
  · exact (keeps_elements h.expression _).bind fun es c₁ hle _ ↦ .pure (hle.trans_lt hlt)

theorem keeps_chains (levels : List (List (String × BinaryOp))) (c : Cursor) :
    Keeps c (chains inner n levels) (PassesOne c) := by
  induction levels generalizing c with
  | nil => exact keeps_operand h c
  | cons operators tighter ih => exact keeps_chain ih c

theorem keeps_ternary (c : Cursor) : Keeps c (ternary inner n) (PassesOne c) := by
  refine (keeps_chains h BinaryOp.levels c).bind fun condition c₁ hle hpass ↦ ?_
  refine .accept (fun hlt ↦ ?_) (.pure hpass)
  refine (h.expression _).bind fun a c₂ hle₂ _ ↦ ?_
  refine (Keeps.expect c₂ ":").bind fun _ c₃ hle₃ _ ↦ ?_
  refine (h.expression _).bind fun b c₄ hle₄ _ ↦ .pure ?_
  exact (hle₄.trans (hle₃.trans (hle₂.trans hlt.le))).trans_lt hpass

theorem keeps_expression (c : Cursor) : Keeps c (expression inner n) (PassesOne c) := by
  refine (keeps_ternary h c).bind fun e c₁ _ hpass ↦ ?_
  exact (keeps_suffixes h.expression e c₁).mono fun e' c₂ _ hle ↦
    (Nat.succ_le_succ hle).trans hpass

end Level

theorem keeps_within (n calls : Nat) (limit : Option Nat) : NestedKeeps (within n calls limit) := by
  induction calls generalizing limit with
  | zero => exact ⟨fun c ↦ .cutOff c, fun c ↦ .cutOff c⟩
  | succ calls ih =>
    match limit with
    | some 0 => exact ⟨fun c ↦ .peek (.throw c _), fun c ↦ .peek (.throw c _)⟩
    | some (limit + 1) => exact ⟨keeps_expression (ih _), keeps_operand (ih _)⟩
    | none => exact ⟨keeps_expression (ih _), keeps_operand (ih _)⟩

theorem keeps_toEnd (h : Keeps c u (PassesOne c)) : Keeps c (toEnd u) (PassesOne c) :=
  h.bind fun _ c₁ _ hpass ↦ (Keeps.finish c₁).bind fun _ _ hle _ ↦
    .pure ((Nat.succ_le_succ hle).trans hpass)

/-! ## All productions -/

/-- What an attempt does from a cursor if it is not cut off. -/
structure Moves (least : α → Nat) (c : Cursor) (u : Attempt α) : Prop where
  /-- It stays in the stream, whether it fails or not. -/
  stream_eq {o : Except ParseError α} {c' : Cursor} (h : outcome? u c = some (o, c')) :
    c'.stream = c.stream
  /-- It does not go back. -/
  offset_le {o : Except ParseError α} {c' : Cursor} (h : outcome? u c = some (o, c')) :
    c.offset ≤ c'.offset
  /-- It does not pass the end token. -/
  offset_lt {o : Except ParseError α} {c' : Cursor} (h : outcome? u c = some (o, c')) :
    c'.offset < c.stream.length
  /-- If it succeeds, it has passed some tokens. -/
  offset_add_le {a : α} {c' : Cursor} (h : outcome? u c = some (.ok a, c')) :
    c.offset + least a ≤ c'.offset

theorem Keeps.moves {least : α → Nat} (h : Keeps c u (Passes least c)) : Moves least c u := by
  have hlength {o : Except ParseError α} {c' : Cursor} (ho : outcome? u c = some (o, c')) :
      c'.offset + (c'.ahead.length + 1) = c.offset + (c.ahead.length + 1) := by
    rw [← Cursor.length_stream, ← Cursor.length_stream, (h o c' ho).1]
  constructor
  · intro o c' ho
    exact (h o c' ho).1
  · intro o c' ho
    have hle := (h o c' ho).2.1
    have heq := hlength ho
    omega
  · intro o c' ho
    have heq := hlength ho
    rw [Cursor.length_stream]
    omega
  · intro a c' ho
    have hpass : c'.ahead.length + least a ≤ c.ahead.length := (h _ c' ho).2.2 a rfl
    have heq := hlength ho
    omega

/-- What the productions of a level and the rounds of their repetitions do from a cursor. Whatever
must not be empty passes a token, and so does a round that is followed by another one. -/
structure Progress (inner : Grammar.Nested Attempt) (n : Nat) (c : Cursor) : Prop where
  nestedExpression : Moves (fun _ ↦ 1) c inner.expression
  nestedOperand : Moves (fun _ ↦ 1) c inner.operand
  whole : Moves (fun _ ↦ 1) c (toEnd inner.expression)
  wholeList : Moves (fun _ ↦ 1) c (toEnd (list inner.expression n))
  expression : Moves (fun _ ↦ 1) c (expression inner n)
  ternary : Moves (fun _ ↦ 1) c (ternary inner n)
  chain (levels : List (List (String × BinaryOp))) : Moves (fun _ ↦ 1) c (chains inner n levels)
  operand : Moves (fun _ ↦ 1) c (operand inner n)
  list : Moves (fun _ ↦ 1) c (list inner.expression n)
  arguments : Moves (fun _ ↦ 1) c (arguments inner.expression n)
  elements : Moves (fun _ ↦ 1) c (elements inner.expression n)
  suffixes (e : Expr) : Moves (fun _ ↦ 0) c (suffixes inner.expression n e)
  chainRest (operators : List (String × BinaryOp)) (tighter : List (List (String × BinaryOp)))
    (left : Expr) : Moves (fun _ ↦ 0) c (chainRest operators (chains inner n tighter) n left)
  listRound (es : List Expr) : Moves (again 1) c (listRound inner.expression es)
  elementsRound (es : List Expr) : Moves (again 1) c (elementsRound inner.expression es)
  suffixRound (e : Expr) : Moves (again 0) c (suffixRound inner.expression n e)
  chainRound (operators : List (String × BinaryOp)) (tighter : List (List (String × BinaryOp)))
    (left : Expr) : Moves (again 0) c (chainRound operators (chains inner n tighter) left)

/-- If the level inside passes a token whenever it succeeds, so do all productions that read
something, and no repetition can make two rounds in one place. -/
theorem progress_of_nestedKeeps {inner : Grammar.Nested Attempt} (h : NestedKeeps inner) (n : Nat)
    (c : Cursor) : Progress inner n c where
  nestedExpression := (h.expression c).moves
  nestedOperand := (h.operand c).moves
  whole := (keeps_toEnd (h.expression c)).moves
  wholeList := (keeps_toEnd (keeps_list h.expression c)).moves
  expression := (keeps_expression h c).moves
  ternary := (keeps_ternary h c).moves
  chain levels := (keeps_chains h levels c).moves
  operand := (keeps_operand h c).moves
  list := (keeps_list h.expression c).moves
  arguments := (keeps_arguments h.expression c).moves
  elements := (keeps_elements h.expression c).moves
  suffixes e := (keeps_suffixes h.expression e c).moves
  chainRest _ tighter left := (keeps_chainRest (keeps_chains h tighter) left c).moves
  listRound es := (keeps_listRound h.expression es c).moves
  elementsRound es := (keeps_elementsRound h.expression es c).moves
  suffixRound e := (keeps_suffixRound h.expression e c).moves
  chainRound _ tighter left := (keeps_chainRound (keeps_chains h tighter) left c).moves

end Attempt

end TemplateExpr
