import TemplateExpr.Source

/-!
# Syntax errors

Why a text or a stream of tokens is not an expression. An error of the grammar holds the token at
which reading stopped; an error in the text itself is passed on as it is.
-/

namespace TemplateExpr

/-- How many levels of expressions within expressions are read. A level is opened by a pair of
parentheses, an element of an array, an argument, a branch of a ternary and the operand of a prefix
operator, and the outermost expression counts as one. -/
def maxNesting : Nat := 64

/-- Why no expression could be read. -/
inductive ParseError where
  /-- A token begins no expression, or stands after the end of one. -/
  | unexpectedToken (token : Token)
  /-- A delimiter is missing. -/
  | expectedToken (expected : String) (found : Token)
  /-- There are too many levels. -/
  | nestingTooDeep (token : Token)
  /-- The text has no tokens to begin with. -/
  | lex (error : LexError)
deriving DecidableEq

namespace ParseError

/-- The token at which reading stopped, for an error of the grammar. -/
def token? : ParseError → Option Token
  | unexpectedToken t => some t
  | expectedToken _ t => some t
  | nestingTooDeep t => some t
  | lex _ => none

def cause? : ParseError → Option LexError
  | lex e => some e
  | _ => none

def message : ParseError → String
  | unexpectedToken t => "Unexpected token " ++ t.describe ++ " at " ++ t.position.describe
  | expectedToken expected t =>
    "Expected '" ++ expected ++ "', got " ++ t.describe ++ " at " ++ t.position.describe
  | nestingTooDeep t =>
    "Expression nested deeper than " ++ toString maxNesting ++ " levels at " ++ t.position.describe
  | lex e => e.message

end ParseError

end TemplateExpr
