import TemplateExpr.Grammar

/-!
# Reading expressions

The grammar run on cursors: from a text or from a stream of tokens to a tree, to a list of trees or
to an error. A reading that fails leaves its cursor at the token that the error names.
-/

namespace TemplateExpr

/-- A computation that moves a cursor and may fail; the cursor survives a failure. -/
abbrev Reading := EStateM ParseError Cursor

namespace Reading

/-! ## Single tokens -/

theorem peek_apply (c : Cursor) : (Grammar.peek : Reading Token) c = .ok c.peek c := rfl

theorem skip_apply (c : Cursor) : (Grammar.skip : Reading Unit) c = .ok () c.skip := rfl

theorem tokensLeft_apply (c : Cursor) :
    (Grammar.tokensLeft : Reading Nat) c = .ok c.ahead.length c := rfl

theorem accept_apply (lexeme : String) (c : Cursor) :
    (Grammar.accept lexeme : Reading Bool) c =
      .ok (c.peekIs lexeme) (if c.peekIs lexeme then c.skip else c) := by
  show (if c.peekIs lexeme then _ else _ : Reading Bool) c = _
  cases c.peekIs lexeme <;> rfl

theorem expect_apply (lexeme : String) (c : Cursor) :
    (Grammar.expect lexeme : Reading Unit) c =
      if c.peekIs lexeme then .ok () c.skip else .error (.expectedToken lexeme c.peek) c := by
  show (if c.peekIs lexeme then _ else _ : Reading Unit) c = _
  cases c.peekIs lexeme <;> rfl

theorem finish_apply (c : Cursor) :
    (Grammar.finish : Reading Unit) c =
      if c.hasMore then .error (.unexpectedToken c.peek) c else .ok () c := by
  show (if c.hasMore then _ else _ : Reading Unit) c = _
  cases c.hasMore <;> rfl

/-! ## Expressions -/

/-- An expression, which may be followed by more tokens. -/
def expression : Reading Expr := (Grammar.within maxNesting).expression

/-- Expressions with commas between them, which may be followed by more tokens. -/
def list : Reading (List Expr) := Grammar.list expression

variable {α : Type}

/-- A reading after which no token but the end token may be left. -/
def toEnd (r : Reading α) : Reading α := do
  let a ← r
  Grammar.finish
  return a

/-- A whole stream as an expression. -/
def whole : Reading Expr := toEnd expression

def wholeList : Reading (List Expr) := toEnd list

/-- The outcome of a reading and the cursor that it leaves. -/
def outcome (r : Reading α) (c : Cursor) : Except ParseError α × Cursor :=
  match r.run c with
  | .ok a c => (.ok a, c)
  | .error e c => (.error e, c)

/-- The outcome of reading a list of tokens. -/
def onTokens (r : Reading α) (ts : List Token) : Except ParseError α :=
  (r.outcome (Cursor.ofTokens ts)).1

/-- The outcome of reading a text. -/
def onText (r : Reading α) (s : String) : Except ParseError α :=
  match (Source.ofString s).tokens with
  | .ok ts => r.onTokens ts
  | .error e => .error (.lex e)

end Reading

def Expr.ofString (s : String) : Except ParseError Expr := Reading.whole.onText s

def Expr.listOfString (s : String) : Except ParseError (List Expr) :=
  Reading.wholeList.onText s

end TemplateExpr
