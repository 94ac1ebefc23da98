import TemplateExpr.Cursor
import TemplateExpr.Expr
import TemplateExpr.ParseError

/-!
# The grammar of expressions

Each production reads its part of a stream of tokens and returns a tree. From the loosest to the
tightest binding:

* an expression is a ternary with calls and filters after it, `t(a, b)` and `t | f(a)`;
* a ternary is `c ? a : b`, with a chain as its condition and expressions as its branches;
* a chain is made of the binary operators of one level, which associate to the left;
* an operand is a prefix operator with an operand after it, or an expression in parentheses, an
  array, a literal or a name.

A production reads on as long as the next token can continue it, and no token is ever given back.

## Levels of nesting

The grammar is recursive in two places only: where an expression stands inside another one, and
where an operand follows a prefix operator. So a production takes what it needs there as a value of
`Nested`, and `level` makes the two productions of a level from those of the next one. A reader with
a limit is this step repeated, above a level at which both productions fail.

## Repetitions

A repetition takes a token in each of its rounds, so it is bounded by the number of tokens that are
left when it begins. The bound is never what ends it.
-/

namespace TemplateExpr.Grammar

variable {m : Type → Type} [Monad m] [MonadStateOf Cursor m] [MonadExceptOf ParseError m]

/-! ## Single tokens -/

def peek : m Token := return (← get).peek

/-- Passes over the token at the cursor. -/
def skip : m Unit := modify Cursor.skip

def tokensLeft : m Nat := return (← get).ahead.length

/-- Passes over the token at the cursor if it is the given one, and tells whether it was. -/
def accept (lexeme : String) : m Bool := do
  if (← get).peekIs lexeme then
    skip
    return true
  else return false

/-- Passes over the token at the cursor, which has to be the given one. -/
def expect (lexeme : String) : m Unit := do
  if (← get).peekIs lexeme then skip
  else throw (.expectedToken lexeme (← peek))

/-- Fails because of the token at the cursor. -/
def unexpected : m Expr := do throw (.unexpectedToken (← peek))

/-- Fails because the token at the cursor would open a level too many. -/
def tooDeep : m Expr := do throw (.nestingTooDeep (← peek))

/-- Fails unless the end token has been reached. -/
def finish : m Unit := do
  if (← get).hasMore then throw (.unexpectedToken (← peek))

/-! ## Productions -/

/-- The two productions by which a level refers to the next one. -/
structure Nested (m : Type → Type) where
  /-- An expression inside another one. -/
  expression : m Expr
  /-- The operand of a prefix operator. -/
  operand : m Expr

/-- The rest of a list after one of its elements, with a comma before each of the others. -/
def listRest (expression : m Expr) : Nat → m (List Expr)
  | 0 => return []
  | bound + 1 => do
    if ← accept "," then
      let e ← expression
      return e :: (← listRest expression bound)
    else return []

/-- Expressions with commas between them, one at least. -/
def list (expression : m Expr) : m (List Expr) := do
  let e ← expression
  return e :: (← listRest expression (← tokensLeft))

/-- The arguments of a call after its opening parenthesis, up to the closing one. -/
def arguments (expression : m Expr) : m (List Expr) := do
  let es ← if (← get).peekIs ")" then pure [] else list expression
  expect ")"
  return es

/-- The elements of an array after its opening bracket, up to the closing one. The commas between
elements may be left out, and one may follow the last element. -/
def elements (expression : m Expr) : Nat → m (List Expr)
  | 0 => return [← expression]
  | bound + 1 => do
    if ← accept "]" then return []
    else
      let e ← expression
      if ← accept "]" then return [e]
      else
        let _ ← accept ","
        return e :: (← elements expression bound)

/-- The expression that a word stands for. -/
def word (text : String) : Expr :=
  match Literal.ofKeyword? text with
  | some v => .literal v
  | none => .name text

/-- A prefix operator, a literal or a name. -/
def simpleOperand (operand : m Expr) : m Expr := do
  let t ← peek
  match t.kind with
  | .symbol =>
    match UnaryOp.ofSpelling? t.text with
    | some op => do
      skip
      return .unary op (← operand)
    | none => unexpected
  | .number =>
    match Literal.ofNumber? t.text.toList with
    | some v => do
      skip
      return .literal v
    | none => unexpected
  | .string => do
    skip
    return .string t.text
  | .identifier => do
    skip
    return word t.text
  | .eof => unexpected

def operand (inner : Nested m) : m Expr := do
  if ← accept "(" then
    let e ← inner.expression
    expect ")"
    return e
  else if ← accept "[" then
    return .array (← elements inner.expression (← tokensLeft))
  else simpleOperand inner.operand

/-- The operator of a level that the token at a cursor spells. -/
def operatorAt? (operators : List (String × BinaryOp)) (c : Cursor) : Option BinaryOp :=
  (operators.find? fun (lexeme, _) ↦ c.peekIs lexeme).map Prod.snd

/-- The rest of a chain after its first operands, which have been put together. -/
def chainRest (operators : List (String × BinaryOp)) (next : m Expr) : Nat → Expr → m Expr
  | 0, left => return left
  | bound + 1, left => do
    match operatorAt? operators (← get) with
    | some op => do
      skip
      let right ← next
      chainRest operators next bound (.binary op left right)
    | none => return left

/-- Operands with operators of one level between them, put together from the left. -/
def chain (operators : List (String × BinaryOp)) (next : m Expr) : m Expr := do
  let left ← next
  chainRest operators next (← tokensLeft) left

/-- Operands with any binary operators between them. -/
def binary (operand : m Expr) : m Expr := BinaryOp.levels.foldr chain operand

/-- A chain, or a choice that it decides. -/
def ternary (inner : Nested m) : m Expr := do
  let condition ← binary (operand inner)
  if ← accept "?" then
    let thenBranch ← inner.expression
    expect ":"
    let elseBranch ← inner.expression
    return .ternary condition thenBranch elseBranch
  else return condition

/-- The function that an expression denotes before an argument list: a bare name calls what goes by
that name. -/
def callee : Expr → Expr
  | .name n => .string n
  | e => e

/-- Calls and filters after an expression. The name of a filter is the text of the next token,
whatever its kind. -/
def suffixes (expression : m Expr) : Nat → Expr → m Expr
  | 0, e => return e
  | bound + 1, e => do
    if ← accept "(" then
      let es ← arguments expression
      suffixes expression bound (.call (callee e) es)
    else if ← accept "|" then
      let t ← peek
      skip
      let es ← if ← accept "(" then arguments expression else pure []
      suffixes expression bound (.filter t.text (e :: es))
    else return e

/-- An expression, given the level inside it. -/
def expression (inner : Nested m) : m Expr := do
  let e ← ternary inner
  suffixes inner.expression (← tokensLeft) e

/-! ## Levels -/

/-- The productions of a level, given those of the next one. -/
def level (inner : Nested m) : Nested m := ⟨expression inner, operand inner⟩

/-- The productions of a level within which `limit` levels, itself included, may be open at once. -/
def within : (limit : Nat) → Nested m
  | 0 => ⟨tooDeep, tooDeep⟩
  | limit + 1 => level (within limit)

end TemplateExpr.Grammar
