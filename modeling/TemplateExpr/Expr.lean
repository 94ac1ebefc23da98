import TemplateExpr.Literal
import TemplateExpr.Operator

/-!
# Expressions

The tree of an expression. Lists of sub-expressions, as in an array or between the parentheses of a
call, are plain lists, and an absent argument list is an empty one.

The function of a call is an expression of its own: reading turns a bare name in that place into a
string, so that `range(1, 3)` calls `"range"`, and keeps everything else as it is. A filter holds
the value piped into it as the first of its arguments.
-/

namespace TemplateExpr

inductive Expr where
  /-- A value written out. -/
  | literal (value : Literal)
  /-- A variable. -/
  | name (name : String)
  /-- A prefix operator and its operand. -/
  | unary (op : UnaryOp) (operand : Expr)
  /-- A binary operator between its operands. -/
  | binary (op : BinaryOp) (left right : Expr)
  /-- A choice between two branches. -/
  | ternary (condition thenBranch elseBranch : Expr)
  /-- An array. -/
  | array (elements : List Expr)
  /-- A list of expressions with commas between them. -/
  | comma (elements : List Expr)
  /-- A function applied to arguments. -/
  | call (callee : Expr) (arguments : List Expr)
  /-- A filter by its name, with the piped value first among its arguments. -/
  | filter (name : String) (arguments : List Expr)

namespace Expr

def string (s : String) : Expr := literal (.string s)

def kindName : Expr → String
  | literal _ => "Literal"
  | name _ => "Identifier"
  | unary .. => "UnaryOperation"
  | binary .. => "BinaryOperation"
  | ternary .. => "TernaryOperation"
  | array _ => "ArrayContainer"
  | comma _ => "CommaExpression"
  | call .. => "FunctionCall"
  | filter .. => "FilterCall"

mutual

/-- Equality of trees, with literals compared by value. -/
def beq : Expr → Expr → Bool
  | literal v, literal v' => v == v'
  | name n, name n' => n == n'
  | unary op a, unary op' a' => op == op' && beq a a'
  | binary op l r, binary op' l' r' => op == op' && beq l l' && beq r r'
  | ternary c t e, ternary c' t' e' => beq c c' && beq t t' && beq e e'
  | array es, array es' => beqList es es'
  | comma es, comma es' => beqList es es'
  | call f es, call f' es' => beq f f' && beqList es es'
  | filter n es, filter n' es' => n == n' && beqList es es'
  | _, _ => false

def beqList : List Expr → List Expr → Bool
  | [], [] => true
  | e :: es, e' :: es' => beq e e' && beqList es es'
  | _, _ => false

end

instance : BEq Expr := ⟨beq⟩

end Expr

end TemplateExpr
