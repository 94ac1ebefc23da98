import TemplateExpr.Binary64.Notation

/-!
# JSON texts

JSON values and the two forms in which they are written: on one line without any space, and spread
over lines with two spaces for each level. The members of an object are written in the order in
which they are listed.

## Writing in front of a text

A value is always written in front of a text that is there already. So no part of the text is copied
when a value is put into another one, and a statement about what is written extends to what comes
after it.

## Strings

In a string, the two quoting characters and the control characters below U+0020 are escaped, five of
the latter by a letter; everything else stands for itself.
-/

namespace TemplateExpr

inductive Json where
  /-- The value `null`. -/
  | null
  /-- A truth value. -/
  | bool (value : Bool)
  /-- A whole number, written without a point. -/
  | int (value : Int)
  /-- A binary number; one that is not finite is written as `null`. -/
  | float (value : Binary64)
  /-- A string. -/
  | string (value : String)
  /-- An array. -/
  | array (elements : List Json)
  /-- An object with its members in the order in which they are written. -/
  | object (members : List (String × Json))

namespace Json

/-! ## Strings and numbers -/

/-- A character as it stands in a JSON string. -/
def escaped (c : Char) : List Char :=
  match c with
  | '"' => ['\\', '"']
  | '\\' => ['\\', '\\']
  | '\x08' => ['\\', 'b']
  | '\x0c' => ['\\', 'f']
  | '\n' => ['\\', 'n']
  | '\r' => ['\\', 'r']
  | '\t' => ['\\', 't']
  | _ =>
    if c.toNat < 0x20 then
      ['\\', 'u', '0', '0', Nat.digitChar (c.toNat / 16), Nat.digitChar (c.toNat % 16)]
    else [c]

def stringChars (s : String) : List Char :=
  '"' :: (s.toList.flatMap escaped ++ ['"'])

def intChars (n : Int) : List Char :=
  (if n < 0 then ['-'] else []) ++ Text.digits n.natAbs

def newLine (level : Nat) : List Char :=
  '\n' :: List.replicate (2 * level) ' '

/-! ## On one line -/

mutual

/-- Writes a value on one line in front of a text. -/
def writeCompact : Json → List Char → List Char
  | null, rest => 'n' :: 'u' :: 'l' :: 'l' :: rest
  | bool true, rest => 't' :: 'r' :: 'u' :: 'e' :: rest
  | bool false, rest => 'f' :: 'a' :: 'l' :: 's' :: 'e' :: rest
  | int n, rest => intChars n ++ rest
  | float x, rest => x.jsonChars ++ rest
  | string s, rest => stringChars s ++ rest
  | array es, rest => '[' :: writeCompactList es (']' :: rest)
  | object ms, rest => '\x7b' :: writeCompactMembers ms ('\x7d' :: rest)

/-- Writes values with commas between them in front of a text. -/
def writeCompactList : List Json → List Char → List Char
  | [], rest => rest
  | [e], rest => writeCompact e rest
  | e :: es, rest => writeCompact e (',' :: writeCompactList es rest)

/-- Writes members with commas between them in front of a text. -/
def writeCompactMembers : List (String × Json) → List Char → List Char
  | [], rest => rest
  | [(k, v)], rest => stringChars k ++ ':' :: writeCompact v rest
  | (k, v) :: ms, rest =>
    stringChars k ++ ':' :: writeCompact v (',' :: writeCompactMembers ms rest)

end

/-! ## Over several lines -/

mutual

/-- Writes a value over several lines in front of a text; the first line begins at the given level
of indentation. Brackets with nothing between them stay together. -/
def writePretty (level : Nat) : Json → List Char → List Char
  | array [], rest => '[' :: ']' :: rest
  | array es, rest => '[' :: writePrettyList (level + 1) es (newLine level ++ ']' :: rest)
  | object [], rest => '\x7b' :: '\x7d' :: rest
  | object ms, rest =>
    '\x7b' :: writePrettyMembers (level + 1) ms (newLine level ++ '\x7d' :: rest)
  | null, rest => 'n' :: 'u' :: 'l' :: 'l' :: rest
  | bool true, rest => 't' :: 'r' :: 'u' :: 'e' :: rest
  | bool false, rest => 'f' :: 'a' :: 'l' :: 's' :: 'e' :: rest
  | int n, rest => intChars n ++ rest
  | float x, rest => x.jsonChars ++ rest
  | string s, rest => stringChars s ++ rest

/-- Writes values on lines of their own, with commas between them, in front of a text. -/
def writePrettyList (level : Nat) : List Json → List Char → List Char
  | [], rest => rest
  | [e], rest => newLine level ++ writePretty level e rest
  | e :: es, rest => newLine level ++ writePretty level e (',' :: writePrettyList level es rest)

/-- Writes members on lines of their own, with commas between them, in front of a text. -/
def writePrettyMembers (level : Nat) : List (String × Json) → List Char → List Char
  | [], rest => rest
  | [(k, v)], rest =>
    newLine level ++ (stringChars k ++ ':' :: ' ' :: writePretty level v rest)
  | (k, v) :: ms, rest =>
    newLine level ++ (stringChars k ++ ':' :: ' ' ::
      writePretty level v (',' :: writePrettyMembers level ms rest))

end

/-! ## Whole texts -/

def compact (j : Json) : String := String.ofList (j.writeCompact [])

def pretty (j : Json) : String := String.ofList (j.writePretty 0 [])

end Json

end TemplateExpr
