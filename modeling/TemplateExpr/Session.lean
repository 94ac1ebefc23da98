import TemplateExpr.Reading

/-!
# Sessions

A session is one stream of tokens on which steps are taken one after the other, among them the
readings of expressions. A step that fails does not end the session: its cursor stays where reading
stopped, and the next step goes on from there.
-/

namespace TemplateExpr.Session

/-- A step of a session. -/
inductive Step where
  /-- Read an expression. -/
  | expression
  /-- Read expressions with commas between them. -/
  | list
  /-- Read an expression that the stream has to end with. -/
  | whole
  /-- Make sure that the stream has ended. -/
  | finish
  /-- Look at the next token. -/
  | peek
  /-- Ask whether the next token can be read as the given one. -/
  | peekIs (lexeme : String)
  /-- Ask whether there are more tokens. -/
  | hasMore
  /-- Look at all the tokens that are left. -/
  | remaining
  /-- Pass over the next token. -/
  | skip
  /-- Pass over the next token if it can be read as the given one. -/
  | accept (lexeme : String)
  /-- Pass over the next token, which has to be the given one. -/
  | expect (lexeme : String)

/-- The answer to a step. -/
inductive Answer where
  /-- An expression or why there is none. -/
  | expression (result : Except ParseError Expr)
  /-- A list of expressions or why there is none. -/
  | list (result : Except ParseError (List Expr))
  /-- That the step has been taken, or why it could not be. -/
  | done (result : Except ParseError Unit)
  /-- A token. -/
  | token (token : Token)
  /-- Tokens. -/
  | tokens (tokens : List Token)
  /-- Yes or no. -/
  | truth (value : Bool)
  /-- Nothing to tell. -/
  | nothing

/-- Takes a step. -/
def step (c : Cursor) : Step → Answer × Cursor
  | .expression => (Reading.expression.outcome c).map .expression id
  | .list => (Reading.list.outcome c).map .list id
  | .whole => (Reading.whole.outcome c).map .expression id
  | .finish => ((Grammar.finish : Reading Unit).outcome c).map .done id
  | .peek => (.token c.peek, c)
  | .peekIs lexeme => (.truth (c.peekIs lexeme), c)
  | .hasMore => (.truth c.hasMore, c)
  | .remaining => (.tokens c.remaining, c)
  | .skip => (.nothing, c.skip)
  | .accept lexeme => (.truth (c.peekIs lexeme), if c.peekIs lexeme then c.skip else c)
  | .expect lexeme => ((Grammar.expect lexeme : Reading Unit).outcome c).map .done id

/-- Takes steps one after the other and records, with each answer, the number of tokens that have
been passed. -/
def run (c : Cursor) : List Step → List (Answer × Nat)
  | [] => []
  | s :: steps =>
    let (answer, c) := step c s
    (answer, c.offset) :: run c steps

end TemplateExpr.Session
