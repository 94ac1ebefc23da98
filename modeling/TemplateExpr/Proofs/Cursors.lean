import TemplateExpr.Proofs.Streams
import TemplateExpr.Session

/-!
# Cursors keep to their stream

The stream of a list of tokens has one end token, which is the last of its tokens, and no step of a
session changes that: whatever tokens the list is made of and whichever steps are taken, the cursor
stands at a token of the stream and never goes back (`Session.keeps_of_reached`).

## Steps that read no expression

A step that reads no expression is one of two things. It leaves the cursor as it is, or it passes
over the token at the cursor, and then that is not the end token: nothing can be read as an end
token, and `Cursor.skip` does not pass it. What such a step does is therefore said by the one
condition on which it passes (`Session.Step.passes`), and where the cursor is afterwards follows
from that alone (`Session.offset_step_of_not_reads`).

## Steps that read expressions

A step that reads expressions may pass over many tokens, and all that is needed of it here is that
it moves in the stream and gives no token back. How far it comes is the business of other modules.
-/

namespace TemplateExpr

/-- A token can be read as its text and as nothing else, and a string and an end token can be read
as nothing at all. -/
theorem Token.spells_iff {t : Token} {lexeme : String} :
    t.spells lexeme = true ↔ (t.kind ≠ .string ∧ t.kind ≠ .eof) ∧ t.text = lexeme := by
  rw [spells]
  cases t.kind with
  | string | eof => simp
  | identifier | number | symbol => simp

namespace Cursor

variable {c c' : Cursor}

/-! ## Places in a stream -/

theorem length_stream (c : Cursor) : c.stream.length = c.offset + (c.ahead.length + 1) := by
  rw [stream, List.length_append, List.length_reverse, remaining, List.length_append]
  rfl

theorem remaining_eq_drop (c : Cursor) : c.remaining = c.stream.drop c.offset := by
  rw [stream, offset, ← List.length_reverse, List.drop_left]

/-- The end token is the last one of its stream, and no other token is one. -/
theorem isEof_getElem?_iff (c : Cursor) {i : ℕ} {t : Token} (h : c.stream[i]? = some t) :
    t.isEof = true ↔ i + 1 = c.stream.length := by
  obtain ⟨front, hfront, hstream⟩ :
      ∃ front, (∀ t ∈ front, t.isEof = false) ∧ c.stream = front ++ [c.stop] :=
    ⟨c.behind.reverse ++ c.ahead,
      List.forall_mem_append.2 ⟨isEof_of_mem_behind, isEof_of_mem_ahead⟩,
      (List.append_assoc _ _ _).symm⟩
  rw [hstream] at h ⊢
  have hi : i < (front ++ [c.stop]).length := (List.getElem?_eq_some_iff.1 h).1
  rw [List.length_append, List.length_singleton, Nat.lt_succ_iff_lt_or_eq] at hi
  rw [List.length_append, List.length_singleton, Nat.add_right_cancel_iff]
  rcases hi with hlt | rfl
  · rw [List.getElem?_append_left hlt] at h
    rw [hfront t (List.mem_of_getElem? h)]
    exact iff_of_false Bool.false_ne_true hlt.ne
  · rw [List.getElem?_concat_length] at h
    obtain rfl := Option.some.inj h
    exact iff_of_true c.isEof_stop rfl

theorem hasMore_eq_false_iff (c : Cursor) :
    c.hasMore = false ↔ c.offset + 1 = c.stream.length := by
  rw [← isEof_getElem?_iff c c.getElem?_offset_stream, hasMore, Bool.not_eq_false']

theorem offset_skip (c : Cursor) : c.skip.offset = c.offset + c.hasMore.toNat := by
  cases h : c.ahead with
  | nil =>
    have hend : c.hasMore = false := by rw [hasMore, isEof_peek, h]; rfl
    rw [skip_of_ahead_eq_nil h, hend]
    rfl
  | cons t ts =>
    have hmore : c.hasMore = true := hasMore_eq_true_iff.2 (h ▸ List.cons_ne_nil t ts)
    rw [offset, behind_skip_of_ahead_eq_cons h, hmore]
    rfl

theorem hasMore_of_peekIs {lexeme : String} (h : c.peekIs lexeme = true) : c.hasMore = true := by
  obtain ⟨⟨-, hkind⟩, -⟩ := Token.spells_iff.1 h
  rw [hasMore, Token.isEof, decide_eq_false hkind]
  rfl

theorem offset_le_of_stream_eq (h : c'.stream = c.stream)
    (hle : c'.ahead.length ≤ c.ahead.length) : c.offset ≤ c'.offset := by
  have hlength := congrArg List.length h
  rw [length_stream, length_stream] at hlength
  omega

/-! ## Cursors of a list of tokens -/

/-- What holds of a cursor wherever it stands in the stream of some tokens. -/
structure KeepsTo (c : Cursor) (ts : List Token) : Prop where
  /-- The stream is made of the tokens before the first end token and of one end token. -/
  stream_eq : c.stream = ts.takeWhile (!·.isEof) ++ [stopOf ts]
  /-- The end token is the last one, and no other token is one. -/
  isEof_iff {i : ℕ} {t : Token} (h : c.stream[i]? = some t) :
    t.isEof = true ↔ i + 1 = c.stream.length
  /-- The cursor stands at a token of the stream. -/
  getElem?_offset : c.stream[c.offset]? = some c.peek
  /-- What is left is the stream from there on. -/
  remaining_eq : c.remaining = c.stream.drop c.offset
  /-- There are more tokens except at the end token. -/
  hasMore_iff : c.hasMore = false ↔ c.offset + 1 = c.stream.length
  /-- A string and an end token can be read as nothing, not even if they have no text. -/
  peekIs_iff (lexeme : String) : c.peekIs lexeme = true ↔
    (c.peek.kind ≠ .string ∧ c.peek.kind ≠ .eof) ∧ c.peek.text = lexeme

theorem keepsTo_of_stream_eq {ts : List Token} (h : c.stream = (ofTokens ts).stream) :
    c.KeepsTo ts where
  stream_eq := h
  isEof_iff := c.isEof_getElem?_iff
  getElem?_offset := c.getElem?_offset_stream
  remaining_eq := c.remaining_eq_drop
  hasMore_iff := c.hasMore_eq_false_iff
  peekIs_iff _ := Token.spells_iff

end Cursor

/-! ## Passing and reading -/

namespace Session

/-- Whether a step reads expressions. -/
def Step.reads : Step → Bool
  | .expression | .list | .whole => true
  | _ => false

/-- Whether a step that reads no expression passes over the token at the cursor. -/
def Step.passes (c : Cursor) : Step → Bool
  | .skip => c.hasMore
  | .accept lexeme | .expect lexeme => c.peekIs lexeme
  | _ => false

variable {c : Cursor} {s : Step}

theorem step_expect (c : Cursor) (lexeme : String) : step c (.expect lexeme) =
    if c.peekIs lexeme then (.done (.ok ()), c.skip)
    else (.done (.error (.expectedToken lexeme c.peek)), c) := by
  rw [step, Reading.outcome, EStateM.run, Reading.expect_apply]
  cases c.peekIs lexeme <;> rfl

/-- A step that reads no expression passes over one token or leaves the cursor as it is. -/
theorem snd_step_of_not_reads (h : s.reads = false) :
    (step c s).2 = if s.passes c then c.skip else c := by
  cases s with
  | expression | list | whole => cases h
  | finish =>
    rw [step, Reading.outcome, EStateM.run, Reading.finish_apply]
    cases c.hasMore <;> rfl
  | peek | peekIs | hasMore | remaining | accept => rfl
  | skip =>
    rw [step, Step.passes]
    split
    · rfl
    · next hend =>
      exact Cursor.skip_of_ahead_eq_nil (not_not.1 (mt Cursor.hasMore_eq_true_iff.2 hend))
  | expect lexeme =>
    rw [step_expect, apply_ite Prod.snd]
    rfl

theorem hasMore_of_passes (h : s.passes c = true) : c.hasMore = true := by
  cases s with
  | skip => exact h
  | accept lexeme | expect lexeme => exact Cursor.hasMore_of_peekIs h
  | _ => cases h

theorem offset_step_of_not_reads (h : s.reads = false) :
    (step c s).2.offset = c.offset + (s.passes c).toNat := by
  rw [snd_step_of_not_reads h]
  cases hpasses : s.passes c with
  | true => rw [if_pos rfl, Cursor.offset_skip, hasMore_of_passes hpasses]
  | false => rfl

/-- No step leaves the stream, and none goes back in it. -/
theorem stream_step (c : Cursor) (s : Step) :
    (step c s).2.stream = c.stream ∧ c.offset ≤ (step c s).2.offset := by
  have hreading : ∀ {α : Type} {x : Reading α}, Reading.Moves c x →
      (x.outcome c).2.stream = c.stream ∧ c.offset ≤ (x.outcome c).2.offset :=
    fun h ↦ ⟨h.1, Cursor.offset_le_of_stream_eq h.1 h.2⟩
  cases hreads : s.reads with
  | true =>
    cases s with
    | expression => exact hreading (Reading.recognizes_expression.moves c)
    | list => exact hreading (Reading.recognizes_list.moves c)
    | whole => exact hreading (Reading.moves_whole c)
    | _ => cases hreads
  | false =>
    refine ⟨?_, offset_step_of_not_reads hreads ▸ Nat.le_add_right _ _⟩
    rw [snd_step_of_not_reads hreads]
    split
    · exact c.stream_skip
    · rfl

/-! ## What a step does -/

/-- What the next step of a session does to its cursor. -/
structure Advances (c : Cursor) : Prop where
  /-- No step leaves the stream. -/
  stream_eq (s : Step) : (step c s).2.stream = c.stream
  /-- No step goes back. -/
  offset_le (s : Step) : c.offset ≤ (step c s).2.offset
  /-- The place is moved by one token exactly if the step passes over it. -/
  offset_eq {s : Step} (h : s.reads = false) :
    (step c s).2.offset = c.offset + (s.passes c).toNat
  /-- A step that passes over no token leaves the cursor as it is. -/
  cursor_eq {s : Step} (h : s.reads = false) (h' : s.passes c = false) : (step c s).2 = c
  /-- A token that is there is passed over if it is asked for or required. -/
  of_peekIs {lexeme : String} (h : c.peekIs lexeme = true) :
    step c (.accept lexeme) = (.truth true, c.skip) ∧
      step c (.expect lexeme) = (.done (.ok ()), c.skip)
  /-- A token that is not there is refused, and the cursor stays. -/
  of_not_peekIs {lexeme : String} (h : c.peekIs lexeme = false) :
    step c (.accept lexeme) = (.truth false, c) ∧
      step c (.expect lexeme) = (.done (.error (.expectedToken lexeme c.peek)), c)

theorem advances_step (c : Cursor) : Advances c where
  stream_eq s := (stream_step c s).1
  offset_le s := (stream_step c s).2
  offset_eq := offset_step_of_not_reads
  cursor_eq h h' := by rw [snd_step_of_not_reads h, h']; rfl
  of_peekIs h := by rw [step_expect, step, h]; exact ⟨rfl, rfl⟩
  of_not_peekIs h := by rw [step_expect, step, h]; exact ⟨rfl, rfl⟩

/-! ## Any number of steps -/

/-- The cursor after some steps. -/
def reached (c : Cursor) (steps : List Step) : Cursor := steps.foldl (fun c s ↦ (step c s).2) c

theorem reached_concat (c : Cursor) (steps : List Step) (s : Step) :
    reached c (steps ++ [s]) = (step (reached c steps) s).2 :=
  List.foldl_concat _ _ _ _

theorem stream_reached (c : Cursor) (steps : List Step) :
    (reached c steps).stream = c.stream := by
  induction steps generalizing c with
  | nil => rfl
  | cons s steps ih => exact (ih (step c s).2).trans (stream_step c s).1

theorem run_concat (c : Cursor) (steps : List Step) (s : Step) : run c (steps ++ [s]) =
    run c steps ++ [((step (reached c steps) s).1, (reached c (steps ++ [s])).offset)] := by
  induction steps generalizing c with
  | nil => rfl
  | cons s' steps ih => exact congrArg (_ :: ·) (ih (step c s').2)

/-- Whatever tokens a stream is made of and whichever steps have been taken, readings and failed
steps among them, the cursor keeps to the stream, and so does the next step. -/
theorem keeps_of_reached (ts : List Token) (steps : List Step) :
    let c := reached (Cursor.ofTokens ts) steps
    c.KeepsTo ts ∧ Advances c ∧ ∀ s,
      reached (Cursor.ofTokens ts) (steps ++ [s]) = (step c s).2 ∧
      run (Cursor.ofTokens ts) (steps ++ [s]) =
        run (Cursor.ofTokens ts) steps ++ [((step c s).1, (step c s).2.offset)] := by
  intro c
  refine ⟨Cursor.keepsTo_of_stream_eq (stream_reached _ steps), advances_step c, fun s ↦ ?_⟩
  rw [run_concat, reached_concat]
  exact ⟨rfl, rfl⟩

/-- A string without a text is not the empty symbol, and neither is the end token. -/
example :
    let ts : List Token := [⟨.string, "", ⟨1, 1, 0⟩⟩, ⟨.eof, "", ⟨1, 3, 2⟩⟩,
      ⟨.symbol, "", ⟨1, 3, 2⟩⟩]
    (run (Cursor.ofTokens ts) [.accept "", .skip, .accept "", .skip]).map Prod.snd =
      [0, 1, 1, 1] := by
  decide

end Session

end TemplateExpr
