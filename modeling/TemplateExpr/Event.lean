import TemplateExpr.Reading

/-!
# Events of reading

What there is to report when a text is read as an expression: each token that is cut off the text,
how many there are, where reading begins, each token that is passed over, and the kind of the tree.
The report of a failed reading ends early.

## Computed afterwards

A cursor keeps the tokens it has passed, so the events are a function of what cutting and reading
return, and neither of them has to report anything while it runs.

## Records

A log shows of an event the detail to which it belongs, the part of the program that it comes from
and a message. Details are left out of a log by their records, so the events are the same at any
level of detail.
-/

namespace TemplateExpr

/-! ## Records -/

/-- The detail in which reading is reported. -/
inductive Severity where
  /-- A step of the work. -/
  | debug
  /-- A single token. -/
  | trace
deriving DecidableEq

def Severity.text : Severity → String
  | debug => "DEBUG"
  | trace => "TRACE"

/-- An entry of a log. -/
structure Record where
  /-- The detail to which the entry belongs. -/
  severity : Severity
  /-- The name under which it is reported. -/
  target : String
  /-- What it says. -/
  message : String
deriving DecidableEq

/-! ## Events -/

/-- Something that happens when a text is read. -/
inductive Event where
  /-- A token has been cut off the text. -/
  | lexed (token : Token)
  /-- The whole text has been cut into tokens. -/
  | tokenized (bytes tokens : Nat)
  /-- Reading begins. -/
  | parsing (position : Position)
  /-- A token has been passed over. -/
  | consumed (token : Token)
  /-- An expression has been read. -/
  | parsed (kind : String)
deriving DecidableEq

namespace Event

/-- The detail to which an event belongs. -/
def severity : Event → Severity
  | lexed _ | consumed _ => .trace
  | tokenized .. | parsing _ | parsed _ => .debug

def target : Event → String
  | lexed _ | tokenized .. => "tplexpr::lexer"
  | consumed _ => "tplexpr::token_reader"
  | parsing _ | parsed _ => "tplexpr::parser"

def message : Event → String
  | lexed t => "lexed " ++ t.kind.text ++ " " ++ Text.quoted t.text ++ " at " ++ t.position.describe
  | tokenized bytes tokens =>
    "tokenized " ++ toString bytes ++ " bytes into " ++ toString tokens ++ " tokens"
  | parsing p => "parsing expression at " ++ p.describe
  | consumed t => "consumed " ++ Text.quoted t.text
  | parsed kind => "parsed " ++ kind ++ " node"

/-- What is written down of an event. -/
def record (e : Event) : Record := ⟨e.severity, e.target, e.message⟩

/-! ## Reports -/

def ofTokens (ts : List Token) : List Event :=
  let start := Cursor.ofTokens ts
  let (result, c) := Reading.whole.outcome start
  parsing start.peek.position :: c.behind.reverse.map consumed ++
    match result with
    | .ok e => [parsed e.kindName]
    | .error _ => []

/-- The events of reading a text as an expression. -/
def ofString (s : String) : List Event :=
  match (Source.ofString s).scan with
  | (ts, some _) => ts.map lexed
  | (ts, none) => ts.map lexed ++ tokenized s.utf8ByteSize ts.length :: ofTokens ts

/-- The log of reading a text as an expression, in full detail. -/
def log (s : String) : List Record := (ofString s).map record

end Event

end TemplateExpr
