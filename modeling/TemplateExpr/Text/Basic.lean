/-!
# The characters of a text

Which characters may stand in a name, which are blank, and how whole numbers and decimal fractions
are written in digits. Everything that cuts a text into pieces or writes one goes back to these.

## Blanks

The blank characters are the twenty-five with the Unicode property `White_Space`. The separators
that look alike but lack the property, such as the zero width space U+200B and the byte order mark
U+FEFF, are not blank.

## Digits

A whole number is written without leading zeros, and a fraction keeps exactly as many digits as its
scale says. Exact and binary numbers share `Text.positional`, so what follows the point is decided
in one place.

All scaling is by powers of ten, and all of it is exact. The power is the function `Nat.pow` and not
the operator, because what the operator means for naturals depends on which other libraries are
imported.
-/

namespace TemplateExpr

/-! ## Powers of ten -/

/-- A power of ten. -/
def tenPow (n : Nat) : Nat := Nat.pow 10 n

@[simp] theorem tenPow_zero : tenPow 0 = 1 := rfl

theorem tenPow_succ (n : Nat) : tenPow (n + 1) = tenPow n * 10 := rfl

theorem tenPow_pos (n : Nat) : 0 < tenPow n := Nat.pow_pos (by decide)

theorem tenPow_add (m n : Nat) : tenPow (m + n) = tenPow m * tenPow n := Nat.pow_add 10 m n

namespace Text

/-! ## Names -/

/-- Whether a character may begin a name: a letter of ASCII or an underscore. -/
def isNameStart (c : Char) : Bool := c.isAlpha || c = '_'

/-- Whether a character may stand inside a name. -/
def isNameChar (c : Char) : Bool := c.isAlphanum || c = '_'

def isName : List Char → Bool
  | [] => false
  | c :: cs => isNameStart c && cs.all isNameChar

/-! ## Blanks -/

/-- Whether a character has the Unicode property `White_Space`. -/
def isBlank (c : Char) : Bool :=
  let n := c.toNat
  (0x0009 ≤ n && n ≤ 0x000D) || n == 0x0020 || n == 0x0085 || n == 0x00A0 || n == 0x1680 ||
    (0x2000 ≤ n && n ≤ 0x200A) || n == 0x2028 || n == 0x2029 || n == 0x202F || n == 0x205F ||
    n == 0x3000

/-- What is left of a text when the blanks at both of its ends are taken away. -/
def trimmed (cs : List Char) : List Char :=
  ((cs.dropWhile isBlank).reverse.dropWhile isBlank).reverse

/-! ## Digits -/

def digits (n : Nat) : List Char := Nat.toDigits 10 n

/-- The last `width` digits of a natural number, with leading zeros. -/
def paddedDigits : Nat → Nat → List Char
  | 0, _ => []
  | width + 1, n => paddedDigits width (n / 10) ++ [Nat.digitChar (n % 10)]

/-- The number `coeff / 10 ^ scale`, with exactly `scale` digits after the point and no point when
there are none. -/
def positional (coeff scale : Nat) : List Char :=
  match scale with
  | 0 => digits coeff
  | scale + 1 =>
    digits (coeff / tenPow (scale + 1)) ++ '.' :: paddedDigits (scale + 1) coeff

/-- The number that a list of digits denotes; there has to be one. -/
def readDigits? (cs : List Char) : Option Nat :=
  if cs ≠ [] ∧ cs.all Char.isDigit then some (Nat.ofDigitChars 10 cs 0) else none

end Text

end TemplateExpr
