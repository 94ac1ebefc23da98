import TemplateExpr.Position
import TemplateExpr.Text.Quoted

/-!
# Tokens

A token is a piece of a source text with its kind and its place. The text of a string token is the
string that it denotes, not its spelling; that of every other token is its spelling. The token at
the end of a stream has no text, though a token of that kind made by hand may have one.

Words that serve as operators or literals are identifiers here: the grammar tells them apart.
-/

namespace TemplateExpr

/-! ## Kinds -/

inductive TokenKind where
  /-- A name or a word. -/
  | identifier
  /-- A number. -/
  | number
  /-- A quoted string. -/
  | string
  /-- An operator or a delimiter. -/
  | symbol
  /-- The end of the stream. -/
  | eof
deriving DecidableEq

def TokenKind.text : TokenKind → String
  | identifier => "identifier"
  | number => "number"
  | string => "string"
  | symbol => "symbol"
  | eof => "eof"

/-! ## Tokens -/

/-- A piece of a source text. -/
structure Token where
  /-- The kind. -/
  kind : TokenKind
  /-- The text. -/
  text : String
  /-- The place of the first character. -/
  position : Position
deriving DecidableEq

namespace Token

/-- The token at the end of a stream. -/
def eof (position : Position) : Token := ⟨.eof, "", position⟩

def isEof (t : Token) : Bool := t.kind = .eof

def isSymbol (t : Token) (lexeme : String) : Bool := t.kind = .symbol && t.text = lexeme

/-- Whether a token can be read as the given operator, delimiter or word. A string never can, nor
can the end of the stream, whatever their texts. -/
def spells (t : Token) (lexeme : String) : Bool :=
  match t.kind with
  | .symbol | .identifier | .number => t.text = lexeme
  | .string | .eof => false

/-! ## Tokens in print -/

/-- How a message names a token. -/
def describe (t : Token) : String :=
  match t.kind with
  | .eof => "end of input"
  | .string => Text.quoted t.text
  | _ => "'" ++ t.text ++ "'"

/-- The line of a token in a listing: its place, its kind and its text, with tabs between. -/
def listingLine (t : Token) : String :=
  toString t.position.line ++ ":" ++ toString t.position.column ++ "\t" ++ t.kind.text ++ "\t" ++
    Text.quoted t.text

/-- The listing of tokens, one line for each. -/
def listing (ts : List Token) : String := "\n".intercalate (ts.map listingLine)

end Token

end TemplateExpr
