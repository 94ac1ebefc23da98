import TemplateExpr.Binary64.Notation
import TemplateExpr.Decimal.Reading
import TemplateExpr.Text.Quoted

/-!
# Literals

The values that an expression can name outright. A number whose text denotes a decimal number is
one; a number that is too large for that, or whose exponent asks for too many places, is a binary
one; and a number too large even for that is no literal at all.
-/

namespace TemplateExpr

inductive Literal where
  /-- A decimal number. -/
  | number (value : Decimal)
  /-- A binary number, for what is no decimal one. -/
  | float (value : Binary64)
  /-- A text. -/
  | string (value : String)
  /-- A truth value. -/
  | boolean (value : Bool)
  /-- The absence of a value. -/
  | null

namespace Literal

/-- Equality of values. A number and a float are never equal, whatever they denote. -/
def beq : Literal → Literal → Bool
  | number a, number b => a == b
  | float a, float b => a == b
  | string a, string b => a == b
  | boolean a, boolean b => a == b
  | null, null => true
  | _, _ => false

instance : BEq Literal := ⟨beq⟩

/-- Reads a number: a decimal one if its text denotes one, else the nearest binary one if that is
finite. -/
def ofNumber? (cs : List Char) : Option Literal :=
  match Decimal.ofChars? cs with
  | some d => some (number d)
  | none => ((Binary64.ofChars? cs).filter Binary64.isFinite).map float

/-- The literals that are spelled like names. -/
def ofKeyword? : String → Option Literal
  | "true" => some (boolean true)
  | "false" => some (boolean false)
  | "null" => some null
  | _ => none

def kindName : Literal → String
  | number _ => "Number"
  | float _ => "Float"
  | string _ => "String"
  | boolean _ => "Boolean"
  | null => "Null"

def chars : Literal → List Char
  | number d => d.chars
  | float x => x.chars
  | string s => Text.quotedChars s.toList
  | boolean true => ['t', 'r', 'u', 'e']
  | boolean false => ['f', 'a', 'l', 's', 'e']
  | null => ['n', 'u', 'l', 'l']

def text (v : Literal) : String := String.ofList v.chars

end Literal

end TemplateExpr
