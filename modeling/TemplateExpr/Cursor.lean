import TemplateExpr.Token

/-!
# Cursors

A cursor is a place in a stream of tokens: those already read, the latest first, those still to be
read, and the end token that closes the stream.

## The end token

The end token is apart from the others, because it is never passed: a cursor that has reached it
stays there, however often it is moved.

## Lists of tokens

A list of tokens becomes a stream by cutting it after its first end token. If it has none, one is
added just past the last token. Where that is can only be guessed from the token itself, since it
does not say how it was spelled.
-/

namespace TemplateExpr

/-! ## Places in a stream -/

/-- A place in a stream of tokens. -/
structure Cursor where
  /-- The tokens before the place, the latest first. -/
  behind : List Token
  /-- The tokens from the place on, the end token left out. -/
  ahead : List Token
  /-- The end token. -/
  stop : Token
  /-- The end token is one. -/
  isEof_stop : stop.isEof = true
  /-- No other token is an end token. -/
  isEof_of_mem : ∀ t ∈ behind ++ ahead, t.isEof = false

namespace Cursor

/-- The place just past a token, if its text is its spelling and has no line feed in it. -/
def justPast (t : Token) : Position :=
  ⟨t.position.line, t.position.column + t.text.length, t.position.offset + t.text.utf8ByteSize⟩

/-- The end token of a list of tokens, added if there is none. -/
def stopOf (ts : List Token) : Token :=
  match ts.find? Token.isEof with
  | some t => t
  | none => Token.eof ((ts.getLast?.map justPast).getD Position.nowhere)

theorem isEof_stopOf (ts : List Token) : (stopOf ts).isEof = true := by
  unfold stopOf
  split
  · next h => exact List.find?_some h
  · rfl

/-- The place at the beginning of the stream of a list of tokens. -/
def ofTokens (ts : List Token) : Cursor where
  behind := []
  ahead := ts.takeWhile (!·.isEof)
  stop := stopOf ts
  isEof_stop := isEof_stopOf ts
  isEof_of_mem t ht := by simpa using List.all_eq_true.1 List.all_takeWhile t ht

/-! ## Looking and moving -/

/-- The token at the place. -/
def peek (c : Cursor) : Token :=
  match c.ahead with
  | [] => c.stop
  | t :: _ => t

/-- Whether any token but the end token is left. -/
def hasMore (c : Cursor) : Bool := !c.peek.isEof

/-- Whether the token at the place can be read as the given operator, delimiter or word. -/
def peekIs (c : Cursor) (lexeme : String) : Bool := c.peek.spells lexeme

def offset (c : Cursor) : Nat := c.behind.length

/-- The tokens from the place on, the end token included. -/
def remaining (c : Cursor) : List Token := c.ahead ++ [c.stop]

/-- The tokens of the whole stream, the end token included. -/
def stream (c : Cursor) : List Token := c.behind.reverse ++ c.remaining

/-- The place after the next token; the end token is not passed. -/
def skip (c : Cursor) : Cursor :=
  match h : c.ahead with
  | [] => c
  | t :: ts =>
    { behind := t :: c.behind
      ahead := ts
      stop := c.stop
      isEof_stop := c.isEof_stop
      isEof_of_mem := fun u hu ↦ c.isEof_of_mem u (by grind) }

/-! ## What the operations do to the stream -/

theorem skip_of_ahead_eq_nil {c : Cursor} (h : c.ahead = []) : c.skip = c := by
  unfold skip
  split
  · rfl
  · simp_all

theorem behind_skip_of_ahead_eq_cons {c : Cursor} {t : Token} {ts : List Token}
    (h : c.ahead = t :: ts) : c.skip.behind = t :: c.behind := by
  unfold skip
  split <;> simp_all

theorem ahead_skip (c : Cursor) : c.skip.ahead = c.ahead.tail := by
  unfold skip
  split <;> simp_all

@[simp] theorem stop_skip (c : Cursor) : c.skip.stop = c.stop := by
  unfold skip
  split <;> rfl

/-- Moving a cursor changes its place and not its stream. -/
@[simp] theorem stream_skip (c : Cursor) : c.skip.stream = c.stream := by
  cases h : c.ahead with
  | nil => rw [skip_of_ahead_eq_nil h]
  | cons t ts =>
    simp [stream, remaining, behind_skip_of_ahead_eq_cons h, ahead_skip, h]

/-- The stream of a list of tokens is the part of it before its first end token, and one end
token. -/
@[simp] theorem stream_ofTokens (ts : List Token) :
    (ofTokens ts).stream = ts.takeWhile (!·.isEof) ++ [stopOf ts] := rfl

theorem isEof_peek (c : Cursor) : c.peek.isEof = c.ahead.isEmpty := by
  unfold peek
  cases h : c.ahead with
  | nil => exact c.isEof_stop
  | cons t ts => exact c.isEof_of_mem t (by simp [h])

/-- There are more tokens unless the end token has been reached. -/
theorem hasMore_eq_true_iff {c : Cursor} : c.hasMore = true ↔ c.ahead ≠ [] := by
  simp [hasMore, isEof_peek]

/-- The end token is never read as anything. -/
theorem peekIs_of_ahead_eq_nil {c : Cursor} (h : c.ahead = []) (lexeme : String) :
    c.peekIs lexeme = false := by
  have : c.peek.kind = .eof := by simpa [h, Token.isEof] using c.isEof_peek
  simp [peekIs, Token.spells, this]

end Cursor

end TemplateExpr
