import TemplateExpr.Decimal
import TemplateExpr.Text.Numeral

/-!
# Reading decimal numbers

Two notations denote a decimal number, the plain one and the scientific one.

## Plain notation

Digits may be parted by underscores once a digit has been read, and at most one point stands among
or around them. A whole part that does not fit is refused; digits after the point that do not fit
are not. The first of those rounds the number, half up, and the others do not count. They are read
all the same: what stands where no digit fits is made of digits and underscores, or the text is no
number.

An underscore right after the last of the 28 places is passed over like any other, unless the number
is short (`Draft.isShort`). In a short number it counts as the first digit that does not fit, which
makes that digit a zero, so the last place stays as it is.

## Scientific notation

A plain number is followed by an exponent. A scaled number is accepted only if no digit is lost.
-/

namespace TemplateExpr.Decimal

/-! ## Plain notation -/

/-- The part of a plain number that has been read. -/
structure Draft where
  /-- The digits so far as a whole number. -/
  coeff : Nat
  /-- How many of them stand after the point. -/
  scale : Nat
  /-- Whether the point has been read. -/
  pointed : Bool
  /-- Whether any digit has been read. -/
  started : Bool

namespace Draft

def empty : Draft := ⟨0, 0, false, false⟩

def push (d : Draft) (digit : Nat) : Draft :=
  { d with
    coeff := d.coeff * 10 + digit
    scale := if d.pointed then d.scale + 1 else d.scale
    started := true }

/-- The coefficient and the scale, if there is a digit at all. -/
def finish? (d : Draft) : Option (Nat × Nat) :=
  if d.started then some (d.coeff, d.scale) else none

/-- Rounds by a digit that has no room. A carry out of 96 bits costs the last place, and is an error
when there is no place after the point to give up. -/
def round? (d : Draft) (digit : Nat) : Option (Nat × Nat) :=
  if digit < 5 then some (d.coeff, d.scale)
  else if d.coeff + 1 < coeffBound then some (d.coeff + 1, d.scale)
  else if d.scale = 0 then none
  else some ((d.coeff + 5) / 10, d.scale - 1)

/-- A number below this bound is short: with one more digit it is sure to take no more than 64 bits.
The bound is a tenth of the largest such number, less a margin of 255. -/
def shortBound : Nat := 18446744073709551615 / 10 - 255

/-- Whether the digits before the last one make a short number. -/
def isShort (d : Draft) : Bool := d.coeff / 10 < shortBound

/-- The digit by which a full draft is rounded: the first of the characters that have no room. None
is as good as a zero. -/
def dropped (d : Draft) (cs : List Char) : Nat :=
  match if d.isShort then cs else cs.dropWhile (· = '_') with
  | [] => 0
  | c :: _ => if c.isDigit then c.toNat - '0'.toNat else 0

/-- Rounds by the characters that have no room. Nothing but digits and underscores may be among
them. -/
def close? (d : Draft) (cs : List Char) : Option (Nat × Nat) :=
  if cs.all fun c ↦ c.isDigit || c = '_' then d.round? (d.dropped cs) else none

def read? : Draft → List Char → Option (Nat × Nat)
  | d, [] => d.finish?
  | d, c :: cs =>
    if d.scale = 28 then d.close? (c :: cs)
    else if c.isDigit then
      let digit := c.toNat - '0'.toNat
      if d.coeff * 10 + digit < coeffBound then read? (d.push digit) cs
      else if d.pointed then d.close? (c :: cs)
      else none
    else if c = '.' then
      if d.pointed then none else read? { d with pointed := true } cs
    else if c = '_' then
      if d.started then read? d cs else none
    else none

end Draft

/-- Reads a number in plain notation with an optional sign. -/
def ofPlain? (cs : List Char) : Option Decimal :=
  let (negative, cs) := Text.Numeral.splitSign cs
  (Draft.empty.read? cs).bind fun (coeff, scale) ↦
    make? (if negative then -(coeff : Int) else coeff) scale

/-! ## Scientific notation -/

def isExponentMark (c : Char) : Bool := c = 'e' || c = 'E'

/-- Reads digits after an optional plus sign. -/
def readCount? : List Char → Option Nat
  | '+' :: cs => Text.readDigits? cs
  | cs => Text.readDigits? cs

/-- The number times a power of ten between `10 ^ 0` and `10 ^ 28`, if no digit is lost. The scale
is used up before the coefficient grows. -/
def scaleUp? (d : Decimal) (n : Nat) : Option Decimal :=
  if n ≤ d.scale then make? d.coeff (d.scale - n)
  else if n ≤ 28 then make? (d.coeff * tenPow (n - d.scale)) 0
  else none

/-- The number divided by a power of ten, if there are places enough for it. -/
def scaleDown? (d : Decimal) (n : Nat) : Option Decimal := make? d.coeff (d.scale + n)

/-- Reads a number in scientific notation: a plain number, the mark of the exponent and a whole
number. -/
def ofScientific? (cs : List Char) : Option Decimal :=
  let base := cs.takeWhile (!isExponentMark ·)
  match cs.dropWhile (!isExponentMark ·) with
  | _ :: '-' :: exponent =>
    (ofPlain? base).bind fun d ↦ (readCount? exponent).bind d.scaleDown?
  | _ :: exponent =>
    (ofPlain? base).bind fun d ↦ (readCount? exponent).bind d.scaleUp?
  | [] => none

/-- Reads a number in whichever notation its text is in. -/
def ofChars? (cs : List Char) : Option Decimal :=
  if cs.any isExponentMark then ofScientific? cs else ofPlain? cs

end TemplateExpr.Decimal
