import TemplateExpr.Expr
import TemplateExpr.Text.Basic

/-!
# The infix form of an expression

Operators, ternaries and filters are put in parentheses, so the form does not depend on binding
strength, and operands stand in the order in which they were read. A function called by a string
that is a name is written as that name, which is how reading understands a bare name before an
opening parenthesis.
-/

namespace TemplateExpr.Expr

/-- Whether a text is a name that is not the spelling of a literal. -/
def isPlainName (s : String) : Bool :=
  Text.isName s.toList && (Literal.ofKeyword? s).isNone

/-- The plain name by which a function is called, if it is called by one. -/
def bareCallee? : Expr → Option String
  | literal (.string s) => if isPlainName s then some s else none
  | _ => none

/-- Texts with a comma and a space between neighbours. -/
def commaSeparated (texts : List (List Char)) : List Char :=
  [',', ' '].intercalate texts

/-- A filter around the texts of its arguments. The first one is piped in; the parentheses for the
others are left out with them. -/
def filterChars (name : List Char) : List (List Char) → List Char
  | [] => '(' :: '|' :: ' ' :: (name ++ [')'])
  | [input] => '(' :: (input ++ ' ' :: '|' :: ' ' :: (name ++ [')']))
  | input :: rest =>
    '(' :: (input ++ ' ' :: '|' :: ' ' ::
      (name ++ '(' :: (commaSeparated rest ++ [')', ')'])))

mutual

/-- The infix form of an expression. -/
def chars : Expr → List Char
  | literal v => v.chars
  | name n => n.toList
  | unary op a => '(' :: (op.spelling.toList ++ chars a ++ [')'])
  | binary op l r => '(' :: (chars l ++ ' ' :: (op.spelling.toList ++ ' ' :: (chars r ++ [')'])))
  | ternary c t e =>
    '(' :: (chars c ++ ' ' :: '?' :: ' ' :: (chars t ++ ' ' :: ':' :: ' ' :: (chars e ++ [')'])))
  | array es => '[' :: (commaSeparated (charsList es) ++ [']'])
  | comma es => commaSeparated (charsList es)
  | call f es =>
    let callee := match f.bareCallee? with
      | some n => n.toList
      | none => chars f
    callee ++ '(' :: (commaSeparated (charsList es) ++ [')'])
  | filter n es => filterChars n.toList (charsList es)

def charsList : List Expr → List (List Char)
  | [] => []
  | e :: es => chars e :: charsList es

end

def text (e : Expr) : String := String.ofList e.chars

def listText (es : List Expr) : String := String.ofList (commaSeparated (charsList es))

end TemplateExpr.Expr
