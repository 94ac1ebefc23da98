import TemplateExpr.Proofs.Steps

/-!
# Repetitions without a bound

A repetition of the grammar is bounded by the number of tokens that are left when it begins. Each of
its rounds takes a token, so any two bounds that are no less come to the same (`eq_of_bounds`): the
bound is never what ends it. The repetitions of this module are begun with that bound wherever they
are begun, and they satisfy the equations of their rounds, in which no bound occurs.

## Equations at a cursor

Each repetition has one equation for every way in which a round can begin, by the token that comes
next (`moreItems_of_comma` and the others), and one equation for all of them (`moreItems_round` and
the others). The first are for proofs, where the next token is known; the others say what has been
meant.

## What a round needs

A round has to pass a token, and the token that shows that there is a round is one. But after the
comma of a list the next expression is read before the repetition goes on, and the bound is counted
down only then. So it is used that the expressions inside pass a token themselves (`Advances`).
-/

namespace TemplateExpr

open Terminal

namespace Reading

variable {α β ι : Type}

/-- Whenever a reading succeeds, it has passed a token. -/
def Advances (x : Reading α) : Prop :=
  ∀ {c a c'}, x c = .ok a c' → c'.ahead.length < c.ahead.length

/-- What comes after a reading matters only where the reading succeeds. -/
theorem bind_congr_of_ok {x : Reading α} {f g : α → Reading β} {c : Cursor}
    (h : ∀ a c', x c = .ok a c' → f a c' = g a c') : (x >>= f) c = (x >>= g) c := by
  cases hx : x c with
  | ok a c' => rw [bind_of_ok hx, bind_of_ok hx, h a c' hx]
  | error e c' => rw [bind_of_error hx, bind_of_error hx]

theorem bind_congr_of_eq {x y : Reading α} {c c' : Cursor} (h : x c = y c') (f : α → Reading β) :
    (x >>= f) c = (y >>= f) c' := by
  show EStateM.bind x f c = EStateM.bind y f c'
  rw [EStateM.bind, EStateM.bind, h]

/-- A repetition has the same outcome with any two bounds that are no less than the number of tokens
left, if each round leaves fewer tokens to the next one and no round is made at the end. -/
theorem eq_of_bounds (loop : Nat → ι → Reading α)
    (hround : ∀ {n n' i} {c : Cursor}, (∀ i' (c' : Cursor), c'.ahead.length < c.ahead.length →
      loop n i' c' = loop n' i' c') → loop (n + 1) i c = loop (n' + 1) i c)
    (hend : ∀ {n i} {c : Cursor}, c.ahead = [] → loop (n + 1) i c = loop 0 i c)
    {n n' : Nat} {i : ι} {c : Cursor} (hn : c.ahead.length ≤ n) (hn' : c.ahead.length ≤ n') :
    loop n i c = loop n' i c := by
  induction n generalizing n' i c with
  | zero =>
    cases n' with
    | zero => rfl
    | succ n' => exact (hend (List.length_eq_zero_iff.1 (Nat.le_zero.1 hn))).symm
  | succ n ih =>
    cases n' with
    | zero => exact hend (List.length_eq_zero_iff.1 (Nat.le_zero.1 hn'))
    | succ n' => exact hround fun i' c' hc' ↦ ih (by omega) (by omega)

variable {x : Reading Expr} {c : Cursor} {e : Expr} {n n' : Nat}

theorem exists_length_ahead {lexeme : String} (h : c.peekIs lexeme = true) :
    ∃ n, c.ahead.length = n + 1 ∧ c.skip.ahead.length = n := by
  obtain ⟨t, hts, -⟩ := Cursor.terminals_of_peekIs h
  have hlen := congrArg List.length hts
  rw [List.length_cons, Cursor.length_terminals, Cursor.length_terminals] at hlen
  exact ⟨_, hlen, rfl⟩

/-! ## Lists -/

theorem listRest_bound (hx : Advances x) (hn : c.ahead.length ≤ n) (hn' : c.ahead.length ≤ n') :
    Grammar.listRest x n c = Grammar.listRest x n' c := by
  refine eq_of_bounds (fun n (_ : Unit) ↦ Grammar.listRest x n) ?_ ?_ (i := ()) hn hn'
  · intro n n' _ c ih
    by_cases hcomma : c.peekIs "," = true
    · rw [listRest_of_comma hcomma, listRest_of_comma hcomma]
      refine bind_congr_of_ok fun a c' ha ↦ bind_congr_of_eq (ih () c' ?_) _
      have hlt := hx ha
      rw [Cursor.length_ahead_skip] at hlt
      omega
    · rw [Bool.not_eq_true] at hcomma
      rw [listRest_of_other hcomma, listRest_of_other hcomma]
  · intro n _ c hend
    exact listRest_of_other (Cursor.peekIs_of_ahead_eq_nil hend _)

/-- The rest of a list after one of its elements. -/
def moreItems (x : Reading Expr) : Reading (List Expr) := do
  Grammar.listRest x (← Grammar.tokensLeft)

theorem moreItems_of_comma (hx : Advances x) (h : c.peekIs "," = true) :
    moreItems x c = (x >>= fun e ↦ moreItems x >>= fun es ↦ pure (e :: es)) c.skip := by
  obtain ⟨n, hn, hn'⟩ := exists_length_ahead h
  rw [moreItems, bind_of_ok (tokensLeft_apply c), hn, listRest_of_comma h]
  refine bind_congr_of_ok fun a c' ha ↦ bind_congr_of_eq (listRest_bound hx ?_ le_rfl) _
  have hlt := hx ha
  omega

theorem moreItems_of_other (h : c.peekIs "," = false) : moreItems x c = .ok [] c := by
  rw [moreItems, bind_of_ok (tokensLeft_apply c)]
  cases c.ahead.length with
  | zero => rfl
  | succ n => exact listRest_of_other h

/-- One round of the rest of a list. -/
theorem moreItems_round (hx : Advances x) : moreItems x = do
    if ← Grammar.accept "," then
      let e ← x
      return e :: (← moreItems x)
    else return [] := by
  funext c
  by_cases h : c.peekIs "," = true
  · rw [moreItems_of_comma hx h, accept_bind_of_true h]
    rfl
  · rw [Bool.not_eq_true] at h
    rw [moreItems_of_other h, accept_bind_of_false h]
    rfl

theorem list_eq_moreItems (x : Reading Expr) :
    Grammar.list x = x >>= fun e ↦ moreItems x >>= fun es ↦ pure (e :: es) := by
  simp only [Grammar.list, moreItems, bind_assoc]

/-! ## Arguments -/

/-- The arguments of a call after one of them, up to the closing parenthesis. -/
def moreArguments (x : Reading Expr) : Reading (List Expr) := do
  let es ← Grammar.listRest x (← Grammar.tokensLeft)
  Grammar.expect ")"
  return es

theorem moreArguments_eq_moreItems (x : Reading Expr) : moreArguments x =
    moreItems x >>= fun es ↦ Grammar.expect ")" >>= fun _ ↦ pure es := by
  simp only [moreArguments, moreItems, bind_assoc]

theorem moreArguments_of_comma (hx : Advances x) (h : c.peekIs "," = true) :
    moreArguments x c = (x >>= fun e ↦ moreArguments x >>= fun es ↦ pure (e :: es)) c.skip := by
  have hitems : moreItems x c = _ := moreItems_of_comma hx h
  rw [moreArguments_eq_moreItems, bind_congr_of_eq hitems]
  simp only [bind_assoc, pure_bind]

theorem moreArguments_of_other (h : c.peekIs "," = false) :
    moreArguments x c = (Grammar.expect ")" >>= fun _ ↦ pure [] : Reading (List Expr)) c := by
  rw [moreArguments_eq_moreItems, bind_of_ok (moreItems_of_other h)]

theorem arguments_eq_moreArguments (h : c.peekIs ")" = false) : Grammar.arguments x c =
    (x >>= fun e ↦ moreArguments x >>= fun es ↦ pure (e :: es)) c := by
  simp only [arguments_of_other h, Grammar.list, moreArguments, bind_assoc, pure_bind]

/-! ## Elements -/

theorem elements_bound (hx : Advances x) (hn : c.ahead.length ≤ n) (hn' : c.ahead.length ≤ n') :
    Grammar.elements x n c = Grammar.elements x n' c := by
  refine eq_of_bounds (fun n (_ : Unit) ↦ Grammar.elements x n) ?_ ?_ (i := ()) hn hn'
  · intro n n' _ c ih
    by_cases hclose : c.peekIs "]" = true
    · rw [elements_of_bracket hclose, elements_of_bracket hclose]
    · rw [Bool.not_eq_true] at hclose
      rw [elements_of_other hclose, elements_of_other hclose]
      refine bind_congr_of_ok fun a c' ha ↦ ?_
      have hlt := hx ha
      by_cases hend : c'.peekIs "]" = true
      · rw [accept_bind_of_true hend, accept_bind_of_true hend, if_pos rfl, if_pos rfl]
      · rw [Bool.not_eq_true] at hend
        rw [accept_bind_of_false hend, accept_bind_of_false hend, if_neg Bool.false_ne_true,
          if_neg Bool.false_ne_true, bind_of_ok (accept_apply "," c'),
          bind_of_ok (accept_apply "," c')]
        refine bind_congr_of_eq (ih () _ ?_) _
        have hle := c'.length_ahead_skip
        split <;> omega
  · intro n _ c hend
    -- an element is read in either case, and there is none at the end
    rw [elements_of_other (Cursor.peekIs_of_ahead_eq_nil hend _), Grammar.elements]
    refine bind_congr_of_ok fun a c' ha ↦ absurd (hx ha) ?_
    simp [hend]

def moreElements (x : Reading Expr) : Reading (List Expr) := do
  Grammar.elements x (← Grammar.tokensLeft)

theorem moreElements_of_bracket (h : c.peekIs "]" = true) : moreElements x c = .ok [] c.skip := by
  obtain ⟨n, hn, -⟩ := exists_length_ahead h
  rw [moreElements, bind_of_ok (tokensLeft_apply c), hn, elements_of_bracket h]

/-- Whether the closing bracket comes next is looked for twice after an element. It could be left to
the next round. -/
theorem moreElements_of_other (hx : Advances x) (h : c.peekIs "]" = false) :
    moreElements x c = (x >>= fun e ↦ Grammar.accept "," >>= fun _ ↦ moreElements x >>= fun es ↦
      pure (e :: es)) c := by
  have hbound : moreElements x c = Grammar.elements x (c.ahead.length + 1) c :=
    elements_bound hx le_rfl (Nat.le_succ _)
  rw [hbound, elements_of_other h]
  refine bind_congr_of_ok fun a c' ha ↦ ?_
  have hlt := hx ha
  by_cases hend : c'.peekIs "]" = true
  · have hcomma : c'.peekIs "," = false := Cursor.peekIs_eq_false hend (by decide)
    rw [accept_bind_of_true hend, if_pos rfl, accept_bind_of_false hcomma,
      bind_of_ok (moreElements_of_bracket hend)]
  · rw [Bool.not_eq_true] at hend
    rw [accept_bind_of_false hend, if_neg Bool.false_ne_true, bind_of_ok (accept_apply "," c'),
      bind_of_ok (accept_apply "," c')]
    refine bind_congr_of_eq (elements_bound hx ?_ le_rfl) _
    have hle := c'.length_ahead_skip
    split <;> omega

theorem moreElements_round (hx : Advances x) : moreElements x = do
    if ← Grammar.accept "]" then return []
    else
      let e ← x
      if ← Grammar.accept "]" then return [e]
      else
        let _ ← Grammar.accept ","
        return e :: (← moreElements x) := by
  funext c
  by_cases h : c.peekIs "]" = true
  · rw [moreElements_of_bracket h, accept_bind_of_true h]
    rfl
  · rw [Bool.not_eq_true] at h
    rw [moreElements_of_other hx h, accept_bind_of_false h, if_neg Bool.false_ne_true]
    refine bind_congr_of_ok fun e c' _ ↦ ?_
    by_cases hend : c'.peekIs "]" = true
    · have hcomma : c'.peekIs "," = false := Cursor.peekIs_eq_false hend (by decide)
      rw [accept_bind_of_true hend, if_pos rfl, accept_bind_of_false hcomma]
      exact bind_of_ok (moreElements_of_bracket hend)
    · rw [Bool.not_eq_true] at hend
      rw [accept_bind_of_false hend, if_neg Bool.false_ne_true]

/-! ## Operands -/

theorem chainRest_bound {operators : List (String × BinaryOp)} (hx : Advances x)
    (hn : c.ahead.length ≤ n) (hn' : c.ahead.length ≤ n') :
    Grammar.chainRest operators x n e c = Grammar.chainRest operators x n' e c := by
  refine eq_of_bounds (Grammar.chainRest operators x) ?_ ?_ hn hn'
  · intro n n' e c ih
    rw [chainRest_apply, chainRest_apply]
    cases operator? operators c.terminals with
    | none => rfl
    | some op =>
      refine bind_congr_of_ok fun a c' ha ↦ ih _ c' ?_
      have hlt := hx ha
      rw [Cursor.length_ahead_skip] at hlt
      omega
  · intro n e c hend
    rw [chainRest_apply, Cursor.terminals, hend, List.map_nil, operator?_nil]
    rfl

/-- Operators of a level and operands after the operand `left`. -/
def moreOperands (operators : List (String × BinaryOp)) (x : Reading Expr) (left : Expr) :
    Reading Expr := do
  Grammar.chainRest operators x (← Grammar.tokensLeft) left

theorem moreOperands_of_some {operators : List (String × BinaryOp)} {op : BinaryOp}
    (hx : Advances x) (h : operator? operators c.terminals = some op) :
    moreOperands operators x e c =
      (x >>= fun right ↦ moreOperands operators x (.binary op e right)) c.skip := by
  have hbound : moreOperands operators x e c =
      Grammar.chainRest operators x (c.ahead.length + 1) e c :=
    chainRest_bound hx le_rfl (Nat.le_succ _)
  rw [hbound, chainRest_apply, h]
  refine bind_congr_of_ok fun a c' ha ↦ chainRest_bound hx ?_ le_rfl
  have hlt := hx ha
  rw [Cursor.length_ahead_skip] at hlt
  omega

theorem moreOperands_of_none {operators : List (String × BinaryOp)}
    (h : operator? operators c.terminals = none) : moreOperands operators x e c = .ok e c := by
  rw [moreOperands, bind_of_ok (tokensLeft_apply c)]
  cases c.ahead.length with
  | zero => rfl
  | succ n => rw [chainRest_apply, h]

theorem moreOperands_round {operators : List (String × BinaryOp)} (hx : Advances x) (e : Expr) :
    moreOperands operators x e = do
      match Grammar.operatorAt? operators (← get) with
      | some op =>
        Grammar.skip
        let right ← x
        moreOperands operators x (.binary op e right)
      | none => return e := by
  funext c
  show _ = (match Grammar.operatorAt? operators c with
    | some op => _
    | none => _ : Reading Expr) c
  cases h : Grammar.operatorAt? operators c with
  | some op =>
    rw [Cursor.operatorAt?_eq_operator?] at h
    exact moreOperands_of_some hx h
  | none =>
    rw [Cursor.operatorAt?_eq_operator?] at h
    exact moreOperands_of_none h

/-! ## Suffixes -/

theorem suffixes_bound (hx : Advances (Grammar.arguments x)) (hn : c.ahead.length ≤ n)
    (hn' : c.ahead.length ≤ n') : Grammar.suffixes x n e c = Grammar.suffixes x n' e c := by
  refine eq_of_bounds (Grammar.suffixes x) ?_ ?_ hn hn'
  · intro n n' e c ih
    by_cases hparen : c.peekIs "(" = true
    · rw [suffixes_of_parenthesis hparen, suffixes_of_parenthesis hparen]
      refine bind_congr_of_ok fun es c' hes ↦ ih _ c' ?_
      have hlt := hx hes
      rw [Cursor.length_ahead_skip] at hlt
      omega
    rw [Bool.not_eq_true] at hparen
    by_cases hpipe : c.peekIs "|" = true
    · obtain ⟨k, hk, hk'⟩ := exists_length_ahead hpipe
      have hname := c.skip.length_ahead_skip
      by_cases hargs : c.skip.skip.peekIs "(" = true
      · rw [suffixes_of_pipe_parenthesis hparen hpipe hargs,
          suffixes_of_pipe_parenthesis hparen hpipe hargs]
        refine bind_congr_of_ok fun es c' hes ↦ ih _ c' ?_
        have hlt := hx hes
        rw [Cursor.length_ahead_skip] at hlt
        omega
      · rw [Bool.not_eq_true] at hargs
        rw [suffixes_of_pipe hparen hpipe hargs, suffixes_of_pipe hparen hpipe hargs]
        exact ih _ _ (by omega)
    · rw [Bool.not_eq_true] at hpipe
      rw [suffixes_of_other hparen hpipe, suffixes_of_other hparen hpipe]
  · intro n e c hend
    exact suffixes_of_other (Cursor.peekIs_of_ahead_eq_nil hend _)
      (Cursor.peekIs_of_ahead_eq_nil hend _)

def moreSuffixes (x : Reading Expr) (e : Expr) : Reading Expr := do
  Grammar.suffixes x (← Grammar.tokensLeft) e

/-- Calls and filters after an expression, a pipe and the name of a filter. -/
def namedFilter (x : Reading Expr) (name : String) (e : Expr) : Reading Expr := do
  let es ← if ← Grammar.accept "(" then Grammar.arguments x else pure []
  moreSuffixes x (.filter name (e :: es))

/-- Calls and filters after an expression and a pipe. -/
def pipedFilter (x : Reading Expr) (e : Expr) : Reading Expr := do
  let t ← Grammar.peek
  Grammar.skip
  namedFilter x t.text e

theorem pipedFilter_apply (x : Reading Expr) (e : Expr) (c : Cursor) :
    pipedFilter x e c = namedFilter x c.peek.text e c.skip := by
  rw [pipedFilter, bind_of_ok (peek_apply c), bind_of_ok (skip_apply c)]

theorem moreSuffixes_eq (hx : Advances (Grammar.arguments x)) (hn : c.ahead.length ≤ n) :
    moreSuffixes x e c = Grammar.suffixes x n e c :=
  suffixes_bound hx le_rfl hn

theorem moreSuffixes_of_parenthesis (hx : Advances (Grammar.arguments x))
    (h : c.peekIs "(" = true) : moreSuffixes x e c =
      (Grammar.arguments x >>= fun es ↦ moreSuffixes x (.call (Grammar.callee e) es)) c.skip := by
  rw [moreSuffixes_eq hx (Nat.le_succ _), suffixes_of_parenthesis h]
  refine bind_congr_of_ok fun es c' hes ↦ (moreSuffixes_eq hx ?_).symm
  have hlt := hx hes
  rw [Cursor.length_ahead_skip] at hlt
  omega

theorem moreSuffixes_of_pipe (hx : Advances (Grammar.arguments x)) (h : c.peekIs "|" = true) :
    moreSuffixes x e c = pipedFilter x e c.skip := by
  have hparen : c.peekIs "(" = false := Cursor.peekIs_eq_false h (by decide)
  have hskip := c.length_ahead_skip
  have hname := c.skip.length_ahead_skip
  rw [moreSuffixes_eq hx (Nat.le_succ _), pipedFilter_apply, namedFilter]
  by_cases hargs : c.skip.skip.peekIs "(" = true
  · rw [suffixes_of_pipe_parenthesis hparen h hargs, accept_bind_of_true hargs]
    refine bind_congr_of_ok fun es c' hes ↦ (moreSuffixes_eq hx ?_).symm
    have hlt := hx hes
    rw [Cursor.length_ahead_skip] at hlt
    omega
  · rw [Bool.not_eq_true] at hargs
    rw [suffixes_of_pipe hparen h hargs, accept_bind_of_false hargs]
    exact (moreSuffixes_eq hx (by omega)).symm

theorem moreSuffixes_of_other (h : c.peekIs "(" = false) (h' : c.peekIs "|" = false) :
    moreSuffixes x e c = .ok e c := by
  rw [moreSuffixes, bind_of_ok (tokensLeft_apply c)]
  cases c.ahead.length with
  | zero => rfl
  | succ n => exact suffixes_of_other h h'

theorem moreSuffixes_round (hx : Advances (Grammar.arguments x)) (e : Expr) :
    moreSuffixes x e = do
      if ← Grammar.accept "(" then
        let es ← Grammar.arguments x
        moreSuffixes x (.call (Grammar.callee e) es)
      else if ← Grammar.accept "|" then pipedFilter x e
      else return e := by
  funext c
  by_cases hparen : c.peekIs "(" = true
  · rw [moreSuffixes_of_parenthesis hx hparen, accept_bind_of_true hparen]
    rfl
  rw [Bool.not_eq_true] at hparen
  rw [accept_bind_of_false hparen, if_neg Bool.false_ne_true]
  by_cases hpipe : c.peekIs "|" = true
  · rw [moreSuffixes_of_pipe hx hpipe, accept_bind_of_true hpipe]
    rfl
  · rw [Bool.not_eq_true] at hpipe
    rw [moreSuffixes_of_other hparen hpipe, accept_bind_of_false hpipe]
    rfl

/-! ## Named filters -/

theorem namedFilter_of_parenthesis {name : String} (h : c.peekIs "(" = true) :
    namedFilter x name e c =
      (Grammar.arguments x >>= fun es ↦ moreSuffixes x (.filter name (e :: es))) c.skip := by
  rw [namedFilter, accept_bind_of_true h]
  rfl

theorem namedFilter_of_other {name : String} (h : c.peekIs "(" = false) :
    namedFilter x name e c = moreSuffixes x (.filter name [e]) c := by
  rw [namedFilter, accept_bind_of_false h]
  rfl

end Reading

end TemplateExpr
