import TemplateExpr.Token.Lexeme

/-!
# Source texts

A source is what is left of a text together with the place where it begins. Cutting a token off it
skips blanks, takes one lexeme and moves the place over both.

## Reading on

A source can be read on after an error. An unexpected character and a number that is too large stay
where they are, so the same error comes again; a bad escape leaves the source after the backslash,
outside any string; an unterminated string leaves nothing. At the end of the text, the end token
comes again and again.
-/

namespace TemplateExpr

/-! ## Errors -/

/-- What is wrong with a text, and where. -/
structure LexError where
  /-- What is wrong. -/
  fault : LexFault
  /-- The place of the fault; for an unterminated string, that of its opening quote. -/
  position : Position
deriving DecidableEq

def LexError.message (e : LexError) : String :=
  let place := e.position.describe
  match e.fault with
  | .unexpectedCharacter c => "Unexpected character '" ++ String.singleton c ++ "' at " ++ place
  | .unterminatedString => "Unterminated string starting at " ++ place
  | .invalidEscape c => "Invalid escape sequence '\\" ++ String.singleton c ++ "' at " ++ place
  | .invalidNumber text => "Invalid number '" ++ text ++ "' at " ++ place

/-! ## Sources -/

/-- The rest of a text from a certain place on. -/
structure Source where
  /-- The characters that are left. -/
  rest : List Char
  /-- The place of the first of them. -/
  position : Position

namespace Source

def ofString (s : String) : Source := ⟨s.toList, Position.start⟩

def skipBlanks (s : Source) : Source :=
  ⟨s.rest.dropWhile Text.isBlank, s.position.after (s.rest.takeWhile Text.isBlank)⟩

/-- The token at the beginning of a source, where no blank stands, or what is wrong there, and the
source that is left. -/
def piece (s : Source) : Except LexError Token × Source :=
  match Lexeme.cut s.rest with
  | .token kind text spelling rest =>
    (.ok ⟨kind, String.ofList text, s.position⟩, ⟨rest, s.position.after spelling⟩)
  | .fault fault before passed rest =>
    (.error ⟨fault, s.position.after before⟩, ⟨rest, s.position.after passed⟩)

/-- The next token or what is wrong there, and the source that is left. -/
def next (s : Source) : Except LexError Token × Source := s.skipBlanks.piece

/-- The outcomes of asking for a token `n` times. -/
def results : Nat → Source → List (Except LexError Token)
  | 0, _ => []
  | n + 1, s => s.next.1 :: results n s.next.2

theorem length_rest_piece_lt {s : Source} {t : Token} (h : s.piece.1 = .ok t)
    (ht : t.isEof = false) : s.piece.2.rest.length < s.rest.length := by
  cases hcut : Lexeme.cut s.rest with
  | token kind text spelling rest =>
    simp only [piece, hcut, Except.ok.injEq] at h ⊢
    have hne : spelling ≠ [] := Lexeme.spelling_ne_nil hcut (by
      rintro rfl
      simp [← h, Token.isEof] at ht)
    have happend := congrArg List.length (Lexeme.chars_cut s.rest)
    rw [hcut, Lexeme.Cut.chars, List.length_append] at happend
    have := List.length_pos_iff.2 hne
    omega
  | fault fault before passed rest => simp [piece, hcut] at h

/-- A token other than the end takes something away from its source. -/
theorem length_rest_next_lt {s : Source} {t : Token} (h : s.next.1 = .ok t)
    (ht : t.isEof = false) : s.next.2.rest.length < s.rest.length :=
  Nat.lt_of_lt_of_le (length_rest_piece_lt h ht) (List.dropWhile_sublist _).length_le

/-! ## Whole texts -/

/-- The tokens of a source up to its end, which is the last of them, or up to the first error. -/
def scan (s : Source) : List Token × Option LexError :=
  match h : s.next.1 with
  | .error e => ([], some e)
  | .ok t =>
    if ht : t.isEof then ([t], none)
    else
      have := length_rest_next_lt h (by simpa using ht)
      let (ts, error) := s.next.2.scan
      (t :: ts, error)
termination_by s.rest.length

/-- The tokens of a source, the end included. -/
def tokens (s : Source) : Except LexError (List Token) :=
  match s.scan with
  | (ts, none) => .ok ts
  | (_, some e) => .error e

end Source

end TemplateExpr
