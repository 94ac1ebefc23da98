/-!
# Positions in a source text

A position is the place of one character: its line and column, both counted from one, and the
number of UTF-8 bytes that stand before it. Columns count characters, not bytes, and the line feed
is the only character that ends a line.

The three numbers are not independent for a place in a given text, and nothing here forces them to
agree: tokens may also be made by hand. What ties them to a text is `Position.after`, the position
reached from the start by reading a list of characters.
-/

namespace TemplateExpr

/-- The place of a character in a source text. -/
structure Position where
  /-- The line, counted from one. -/
  line : Nat
  /-- The column, counted from one in characters. -/
  column : Nat
  /-- The number of UTF-8 bytes before the character. -/
  offset : Nat
deriving DecidableEq

namespace Position

def start : Position := ⟨1, 1, 0⟩

/-- The position given to the end of a stream that holds no token at all. -/
def nowhere : Position := ⟨0, 0, 0⟩

/-- The position after the character `c` at `p`. -/
def next (p : Position) (c : Char) : Position :=
  if c = '\n' then ⟨p.line + 1, 1, p.offset + c.utf8Size⟩
  else ⟨p.line, p.column + 1, p.offset + c.utf8Size⟩

/-- The position after the characters `cs` that begin at `p`. -/
def after (p : Position) (cs : List Char) : Position :=
  cs.foldl next p

@[simp] theorem after_nil (p : Position) : p.after [] = p := rfl

@[simp] theorem after_cons (p : Position) (c : Char) (cs : List Char) :
    p.after (c :: cs) = (p.next c).after cs := rfl

theorem after_append (p : Position) (cs ds : List Char) :
    p.after (cs ++ ds) = (p.after cs).after ds :=
  List.foldl_append

/-- How a message names a place; the byte offset is left out. -/
def describe (p : Position) : String :=
  s!"line {p.line}, column {p.column}"

end Position

end TemplateExpr
