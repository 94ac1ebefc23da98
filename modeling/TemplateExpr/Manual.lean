/-!
# The manual

The texts on the language that the command line can show: an overview and one text for each of four
topics. A topic goes by several names, in which capitals and small letters are the same, and so are
hyphens and underscores.
-/

namespace TemplateExpr.Manual

/-- A topic of the manual. -/
inductive Topic where
  /-- Literals, names, arrays and grouping. -/
  | literals
  /-- The operators. -/
  | operators
  /-- Calls and filters. -/
  | calls
  /-- Binding strength. -/
  | precedence
deriving DecidableEq

/-- The small form of a letter, and an underscore for a hyphen. Small letters are those of ASCII:
the one other capital with a small letter of ASCII, the Kelvin sign, has a `k`, which is in no name
of a topic. -/
def plainChar (c : Char) : Char := if c = '-' then '_' else c.toLower

def Topic.ofName? (name : String) : Option Topic :=
  match String.ofList (name.toList.map plainChar) with
  | "syntax" | "literals" => some .literals
  | "operators" | "ops" => some .operators
  | "calls" | "functions" | "filters" => some .calls
  | "precedence" | "prec" => some .precedence
  | _ => none

/-- The list of topics, with a quick reference. -/
def overview : String :=
"TPLEXPR DOCUMENTATION

tplexpr parses the expressions written inside \x7b\x7b ... \x7d\x7d slots of a template
into a syntax tree. It does not evaluate them.

DOCUMENTATION CATEGORIES

  syntax        Literals, names, arrays and grouping
  operators     Arithmetic, comparison, logical and prefix operators
  calls         Function calls and filter pipes
  precedence    Binding strength and associativity

QUICK REFERENCE

  42  \"text\"  true  null   Literals
  user                     Name lookup
  [1, 2, 3]                Array
  a ? b : c                Conditional
  range(1, 5)              Function call
  name | upper             Filter

Run 'tplexpr doc <category>' for detailed documentation.
"

def literalsText : String :=
"SYNTAX - Literals, Names and Grouping

NUMBERS
  42   3.14   1e3
    Stored as exact decimals; values past 28 decimal places or
    beyond the decimal range (1e-30, 1e29) are kept as floats.

STRINGS
  \"double\"   'single'
    Escapes: \\n \\t \\r \\\" \\' \\\\

KEYWORDS
  true   false   null
    Always literals, never names.

NAMES
  user   item_count   _private
    Letters, digits and underscores, not starting with a digit.

ARRAYS
  []   [1, 2, 3]   [a, b,]
    A trailing comma is accepted.

GROUPING
  (a + b) * c
    Parentheses turn any expression into an operand, including a
    conditional that is then called: (cond ? f : g)(x)
"

def operatorsText : String :=
"OPERATORS

ARITHMETIC
  +  -  *  /  %

COMPARISON
  ==  !=  ===  !==  <  >  <=  >=
    All on one level and left-associative: a < b < c is (a < b) < c.

LOGICAL
  ||  or      either side
  &&  and     both sides

PREFIX
  -x   +x   ~x   !x
    Prefix operators nest: !!x is !(!x).

CONDITIONAL
  cond ? then : else
    Conditionals nest without parentheses in either branch:
    a ? b : c ? d : e  is  a ? b : (c ? d : e)
"

def callsText : String :=
"CALLS - Functions and Filters

FUNCTION CALLS
  name(arg, ...)
    A call on a bare name refers to the function registered under that
    name; the tree stores the callee as the string \"name\".

  (expr)(arg, ...)
    Any other callee is kept as an expression.

  f()()
    Calls chain.

FILTERS
  value | name
  value | name(arg, ...)
    The piped value becomes the first argument of the filter.

  items | sort | join(\", \")
    Filters chain left to right.
"

def precedenceText : String :=
"PRECEDENCE - Loosest to Tightest

  1  calls f(x), filters x | f
  2  conditional  ? :
  3  ||  or
  4  &&  and
  5  ==  !=  ===  !==  <  >  <=  >=
  6  +  -
  7  *  /  %
  8  prefix  -  +  ~  !
  9  literals, names, ( ), [ ]

Binary operators are left-associative: a - b - c is (a - b) - c.
"

def Topic.text : Topic → String
  | literals => literalsText
  | operators => operatorsText
  | calls => callsText
  | precedence => precedenceText

end TemplateExpr.Manual
