/-!
# Operators

The prefix operators and the binary ones, each with the one spelling in which it is printed. Two
binary operators have a second spelling that is read but never printed: `or` and `and`.
-/

namespace TemplateExpr

inductive UnaryOp where
  /-- The negative of a number. -/
  | negate
  /-- A number as it is. -/
  | plus
  /-- The complement of the bits of a number. -/
  | bitNot
  /-- The opposite of a truth value. -/
  | not
deriving DecidableEq

inductive BinaryOp where
  /-- Either side holds. -/
  | or
  /-- Both sides hold. -/
  | and
  /-- The sides are equal. -/
  | equal
  /-- The sides are not equal. -/
  | notEqual
  /-- The sides are equal and of one kind. -/
  | strictEqual
  /-- The sides are not equal or not of one kind. -/
  | strictNotEqual
  /-- The left side is smaller. -/
  | less
  /-- The left side is larger. -/
  | greater
  /-- The left side is not larger. -/
  | lessEqual
  /-- The left side is not smaller. -/
  | greaterEqual
  /-- The sum, or one text after the other. -/
  | add
  /-- The difference. -/
  | subtract
  /-- The product. -/
  | multiply
  /-- The quotient. -/
  | divide
  /-- The remainder. -/
  | modulo
deriving DecidableEq

namespace UnaryOp

def spelling : UnaryOp → String
  | negate => "-"
  | plus => "+"
  | bitNot => "~"
  | not => "!"

def ofSpelling? : String → Option UnaryOp
  | "-" => some negate
  | "+" => some plus
  | "~" => some bitNot
  | "!" => some not
  | _ => none

end UnaryOp

namespace BinaryOp

/-- The spelling in which a binary operator is printed. -/
def spelling : BinaryOp → String
  | or => "||"
  | and => "&&"
  | equal => "=="
  | notEqual => "!="
  | strictEqual => "==="
  | strictNotEqual => "!=="
  | less => "<"
  | greater => ">"
  | lessEqual => "<="
  | greaterEqual => ">="
  | add => "+"
  | subtract => "-"
  | multiply => "*"
  | divide => "/"
  | modulo => "%"

/-- The operator printed with a given spelling. -/
def ofSpelling? : String → Option BinaryOp
  | "||" => some or
  | "&&" => some and
  | "==" => some equal
  | "!=" => some notEqual
  | "===" => some strictEqual
  | "!==" => some strictNotEqual
  | "<" => some less
  | ">" => some greater
  | "<=" => some lessEqual
  | ">=" => some greaterEqual
  | "+" => some add
  | "-" => some subtract
  | "*" => some multiply
  | "/" => some divide
  | "%" => some modulo
  | _ => none

/-- The levels of binding strength, loosest first, with every spelling that is read. -/
def levels : List (List (String × BinaryOp)) :=
  [[("||", or), ("or", or)],
   [("&&", and), ("and", and)],
   [("==", equal), ("!=", notEqual), (">=", greaterEqual), ("<=", lessEqual), (">", greater),
    ("<", less), ("===", strictEqual), ("!==", strictNotEqual)],
   [("+", add), ("-", subtract)],
   [("*", multiply), ("/", divide), ("%", modulo)]]

end BinaryOp

end TemplateExpr
