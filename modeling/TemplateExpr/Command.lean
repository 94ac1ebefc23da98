import TemplateExpr.Expr.Infix
import TemplateExpr.Expr.Json
import TemplateExpr.Manual
import TemplateExpr.Reading

/-!
# Commands

What the command line can do, as functions: check an expression and print its tree, list the tokens
of a text, and look up a topic of the manual.
-/

namespace TemplateExpr.Command

/-! ## Failures -/

/-- Why a command fails. -/
inductive Error where
  /-- The text is not an expression. -/
  | parse (error : ParseError)
  /-- The input cannot be read. -/
  | io (message : String)
  /-- There is no input. -/
  | noInput
  /-- The manual has no such topic. -/
  | unknownTopic (name : String)

namespace Error

def message : Error → String
  | parse e => "Syntax error: " ++ e.message
  | io message => "IO error: " ++ message
  | noInput => "No expression provided. Pass one as an argument or pipe it to stdin."
  | unknownTopic name =>
    "Unknown category: '" ++ name ++ "'\nRun 'tplexpr docs' to see available categories."

/-- The message of the error that lies behind a failed command. -/
def cause? : Error → Option String
  | parse e => some e.message
  | io message => some message
  | noInput => none
  | unknownTopic _ => none

end Error

/-! ## Checking -/

inductive Form where
  /-- As an expression, with parentheses. -/
  | plain
  /-- As JSON on one line. -/
  | json
  /-- As JSON over several lines. -/
  | prettyJson
deriving DecidableEq

def Form.render (e : Expr) : Form → String
  | plain => e.text
  | json => e.toJson.compact
  | prettyJson => e.toJson.pretty

/-- A text to be checked. -/
structure Check where
  /-- The text. -/
  text : String
  /-- The form in which its tree is printed. -/
  form : Form
  /-- Whether the text is a list of expressions rather than one. -/
  asList : Bool
  /-- Whether the tree is not printed at all. -/
  syntaxOnly : Bool

namespace Check

/-- The outcome of a successful check. -/
inductive Verdict where
  /-- There is a tree. -/
  | valid
  /-- The tree in print. -/
  | printed (text : String)

/-- The text without the blanks around it, as one tree. -/
def tree (c : Check) : Except ParseError Expr :=
  let text := String.ofList (Text.trimmed c.text.toList)
  if c.asList then (Expr.listOfString text).map .comma else Expr.ofString text

def run (c : Check) : Except Error Verdict :=
  match c.tree with
  | .error e => .error (.parse e)
  | .ok e => .ok (if c.syntaxOnly then .valid else .printed (c.form.render e))

end Check

/-! ## Other commands -/

def listTokens (s : String) : Except Error String :=
  match (Source.ofString s).tokens with
  | .ok ts => .ok (Token.listing ts)
  | .error e => .error (.parse (.lex e))

def lookUp (name : String) : Except Error String :=
  match Manual.Topic.ofName? name with
  | some topic => .ok topic.text
  | none => .error (.unknownTopic name)

end TemplateExpr.Command
