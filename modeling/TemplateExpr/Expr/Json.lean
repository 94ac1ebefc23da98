import TemplateExpr.Decimal.Nearby
import TemplateExpr.Expr
import TemplateExpr.Json

/-!
# The JSON form of an expression

Every node becomes an object whose member `type` names its kind; the other members are its parts.
Members are listed in the alphabetical order of their keys.

A number is stripped of trailing zeros first, so its value alone decides about its form. A whole
number that fits 64 bits with a sign stays whole; any other number becomes a binary one near it.
-/

namespace TemplateExpr

/-! ## Numbers and literals -/

/-- Whether a whole number fits 64 bits with a sign. -/
def fitsWord (n : Int) : Bool :=
  -9223372036854775808 ≤ n && n ≤ 9223372036854775807

/-- The JSON form of an exact number. -/
def Decimal.toJson (d : Decimal) : Json :=
  let d := d.normalize
  if d.scale = 0 ∧ fitsWord d.coeff then .int d.coeff else .float d.nearby

def Literal.toJson : Literal → Json
  | number d => d.toJson
  | float x => if x.isFinite then .float x else .null
  | string s => .string s
  | boolean b => .bool b
  | null => .null

namespace Expr

def kindJson (e : Expr) : Json := .string e.kindName

mutual

/-- The JSON form of an expression. -/
def toJson : Expr → Json
  | literal v => .object [("type", kindJson (literal v)), ("value", v.toJson)]
  | name n => .object [("name", .string n), ("type", kindJson (name n))]
  | unary op a =>
    .object [("operand", toJson a), ("operator", .string op.spelling),
      ("type", kindJson (unary op a))]
  | binary op l r =>
    .object [("left", toJson l), ("operator", .string op.spelling), ("right", toJson r),
      ("type", kindJson (binary op l r))]
  | ternary c t e =>
    .object [("condition", toJson c), ("else", toJson e), ("then", toJson t),
      ("type", kindJson (ternary c t e))]
  | array es => .object [("elements", .array (toJsonList es)), ("type", kindJson (array es))]
  | comma es => .object [("elements", .array (toJsonList es)), ("type", kindJson (comma es))]
  | call f es =>
    .object [("arguments", .array (toJsonList es)), ("callee", toJson f),
      ("type", kindJson (call f es))]
  | filter n es =>
    .object [("arguments", .array (toJsonList es)), ("name", .string n),
      ("type", kindJson (filter n es))]

def toJsonList : List Expr → List Json
  | [] => []
  | e :: es => toJson e :: toJsonList es

end

end Expr

end TemplateExpr
