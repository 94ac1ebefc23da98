import TemplateExpr.Text.Unprintable

/-!
# Quoted texts

The written form of a text between double quotes, used wherever a string is shown: in the infix
form of an expression, in a token listing and in messages. Six characters have an escape of one
letter, an unprintable character is written by its code point in lower-case hexadecimal digits,
and every other character stands for itself.

The escape `\0` and the escapes by code point are for the reader's eye only: the expression
language itself knows neither of them.
-/

namespace TemplateExpr.Text

/-- The letter that follows the backslash in the short escape of a character, if it has one. -/
def escapeLetter? (c : Char) : Option Char :=
  match c with
  | '\x00' => some '0'
  | '\t' => some 't'
  | '\r' => some 'r'
  | '\n' => some 'n'
  | '"' => some '"'
  | '\\' => some '\\'
  | _ => none

/-- A character as it stands between the quotes. -/
def escaped (c : Char) : List Char :=
  match escapeLetter? c with
  | some letter => ['\\', letter]
  | none =>
    if isUnprintable c then '\\' :: 'u' :: '\x7b' :: (Nat.toDigits 16 c.toNat ++ ['\x7d'])
    else [c]

/-- The characters of a text in double quotes. -/
def quotedChars (cs : List Char) : List Char :=
  '"' :: (cs.flatMap escaped ++ ['"'])

def quoted (s : String) : String := String.ofList (quotedChars s.toList)

end TemplateExpr.Text
