import TemplateExpr.Proofs.Tiling

/-!
# Reading on after an error

A source can be asked for tokens again and again, whatever the answers have been. An error may leave
it in the middle of a string, behind a backslash or before a character that begins no token, and
still it stands in its text: what is left of it is the end of the text, and its place is the one
that the characters before determine (`Source.resumes`).

## One question

All of this comes from what one question does (`Source.next_passes`). It passes over some characters
in front of the source, it names a place among them, and it passes over none only if the answer is
one that comes again and again.

## Any number of them

As every other answer takes a byte of the text at least, the answers are the same from the one on
whose number is that of the bytes. They may be so long before; the number of bytes is a bound that
needs no look at the text.
-/

namespace TemplateExpr

open Text

/-! ## Places in a text -/

namespace Position

/-- A place before a character of a text or at its end. -/
def IsIn (p : Position) (text : List Char) : Prop := ∃ front, front <+: text ∧ p = following front

theorem after_following (front cs : List Char) :
    (following front).after cs = following (front ++ cs) := by
  rw [← after_start, ← after_start, after_append]

theorem offset_next (p : Position) (c : Char) : (p.next c).offset = p.offset + c.utf8Size := by
  rw [next]
  split <;> rfl

theorem offset_le_after (p : Position) (cs : List Char) : p.offset ≤ (p.after cs).offset := by
  induction cs generalizing p with
  | nil => exact Nat.le_refl _
  | cons c cs ih =>
    have hstep : p.offset ≤ (p.next c).offset := p.offset_next c ▸ Nat.le_add_right _ _
    exact Nat.le_trans hstep (ih _)

theorem offset_lt_after (p : Position) {cs : List Char} (h : cs ≠ []) :
    p.offset < (p.after cs).offset := by
  obtain ⟨c, cs, rfl⟩ := List.exists_cons_of_ne_nil h
  have hstep : p.offset < (p.next c).offset :=
    p.offset_next c ▸ Nat.lt_add_of_pos_right c.utf8Size_pos
  exact Nat.lt_of_lt_of_le hstep (offset_le_after _ _)

end Position

/-! ## What a fault passes over -/

/-- Whether a fault leaves its source where it is. -/
def LexFault.stays : LexFault → Bool
  | unexpectedCharacter _ | invalidNumber _ => true
  | unterminatedString | invalidEscape _ => false

/-- The place of a fault is among the characters that are passed over, and nothing is left after an
unterminated string. -/
theorem Lexeme.of_cut_eq_fault {fault : LexFault} {cs before passed rest : List Char}
    (h : cut cs = .fault fault before passed rest) :
    before <+: passed ∧ (passed = [] ↔ fault.stays = true) ∧
      (fault = .unterminatedString → rest = []) := by
  cases cs with
  | nil => cases h
  | cons c cs =>
    rw [cut] at h
    split at h
    · split at h
      · cases h
      · cases h
        refine ⟨?_, by simp [LexFault.stays], by simp⟩
        exact (List.prefix_cons_inj c).2 (List.prefix_append _ _)
      · cases h
        exact ⟨List.nil_prefix, by simp [LexFault.stays], fun _ ↦ rfl⟩
    split at h
    · cases h
    split at h
    · dsimp only at h
      split at h
      · cases h
      · cases h
        exact ⟨List.nil_prefix, by simp [LexFault.stays], by simp⟩
    split at h
    · cases h
    · cases h
      exact ⟨List.nil_prefix, by simp [LexFault.stays], by simp⟩

namespace Source

/-! ## One question -/

def placeOf : Except LexError Token → Position
  | .ok t => t.position
  | .error e => e.position

/-- Whether an answer comes again and again: the end of the text, or a fault that leaves the source
where it is. -/
def repeats : Except LexError Token → Bool
  | .ok t => t.isEof
  | .error e => e.fault.stays

/-- Asking for a token passes over some characters and names a place among them, and it passes over
none only if the answer comes again. -/
theorem next_passes (s : Source) : ∃ before passed, s.rest = passed ++ s.next.2.rest ∧
    s.next.2.position = s.position.after passed ∧ before <+: passed ∧
    placeOf s.next.1 = s.position.after before ∧ (passed = [] → repeats s.next.1 = true) := by
  let blanks := s.rest.takeWhile isBlank
  have hsplit : s.rest = blanks ++ s.skipBlanks.rest := List.takeWhile_append_dropWhile.symm
  have hchars := Lexeme.chars_cut s.skipBlanks.rest
  cases hcut : Lexeme.cut s.skipBlanks.rest with
  | token kind text spelling rest =>
    rw [hcut, Lexeme.Cut.chars] at hchars
    rw [next, piece_of_cut hcut]
    refine ⟨blanks, blanks ++ spelling, ?_, (Position.after_append ..).symm,
      List.prefix_append _ _, rfl, fun hnil ↦ ?_⟩
    · rw [List.append_assoc, hchars, ← hsplit]
    · have hkind : kind = .eof := by
        by_contra hne
        exact Lexeme.spelling_ne_nil hcut hne (List.append_eq_nil_iff.1 hnil).2
      rw [hkind]
      rfl
  | fault fault before passed rest =>
    rw [hcut, Lexeme.Cut.chars] at hchars
    obtain ⟨hbefore, hstays, -⟩ := Lexeme.of_cut_eq_fault hcut
    rw [next, piece, hcut]
    refine ⟨blanks ++ before, blanks ++ passed, ?_, (Position.after_append ..).symm,
      (List.prefix_append_right_inj blanks).2 hbefore, (Position.after_append ..).symm,
      fun hnil ↦ ?_⟩
    · rw [List.append_assoc, hchars, ← hsplit]
    · exact hstays.1 (List.append_eq_nil_iff.1 hnil).2

/-- A question moves the place of a source on, or it leaves the source as it is and has an answer
that comes again. -/
theorem offset_lt_or_next_eq (s : Source) :
    s.position.offset < s.next.2.position.offset ∨ (repeats s.next.1 = true ∧ s.next.2 = s) := by
  obtain ⟨before, passed, hrest, hplace, -, -, hrepeats⟩ := s.next_passes
  by_cases hnil : passed = []
  · subst hnil
    exact .inr ⟨hrepeats rfl, by rw [mk.injEq]; exact ⟨hrest.symm, hplace⟩⟩
  · exact .inl (hplace ▸ Position.offset_lt_after _ hnil)

theorem next_of_rest_eq_nil {s : Source} (h : s.rest = []) :
    s.next.1 = .ok (Token.eof s.position) := by
  obtain ⟨rest, position⟩ := s
  subst h
  rfl

theorem rest_eq_nil_of_unterminatedString {s : Source} {p : Position}
    (h : s.next.1 = .error ⟨.unterminatedString, p⟩) : s.next.2.rest = [] := by
  rw [next, piece] at h ⊢
  split at h
  · cases h
  · next hcut =>
    cases h
    exact (Lexeme.of_cut_eq_fault hcut).2.2 rfl

/-! ## Standing in a text -/

/-- What is left of a source is the end of a text, and its place is the one that the characters
before it determine. -/
def StandsIn (s : Source) (text : String) : Prop :=
  ∃ front, text.toList = front ++ s.rest ∧ s.position = Position.following front

section

variable {s : Source} {text : String}

theorem StandsIn.next (h : s.StandsIn text) : s.next.2.StandsIn text := by
  obtain ⟨front, htext, hplace⟩ := h
  obtain ⟨before, passed, hrest, hnext, -⟩ := s.next_passes
  refine ⟨front ++ passed, ?_, ?_⟩
  · rw [htext, List.append_assoc, ← hrest]
  · rw [hnext, hplace, Position.after_following]

theorem StandsIn.placeOf_isIn (h : s.StandsIn text) : (placeOf s.next.1).IsIn text.toList := by
  obtain ⟨front, htext, hplace⟩ := h
  obtain ⟨before, passed, hrest, -, hbefore, hanswer, -⟩ := s.next_passes
  refine ⟨front ++ before, ?_, ?_⟩
  · rw [htext, hrest]
    exact (List.prefix_append_right_inj front).2 (hbefore.trans (List.prefix_append _ _))
  · rw [hanswer, hplace, Position.after_following]

/-- The characters of the text before a source and after it. -/
theorem StandsIn.exists_append (h : s.StandsIn text) :
    ∃ front, text = front ++ String.ofList s.rest ∧ s.position.offset = front.utf8ByteSize := by
  obtain ⟨front, htext, hplace⟩ := h
  refine ⟨String.ofList front, ?_, congrArg Position.offset hplace⟩
  rw [← String.ofList_append, ← htext, String.ofList_toList]

theorem StandsIn.offset_le (h : s.StandsIn text) : s.position.offset ≤ text.utf8ByteSize := by
  obtain ⟨front, rfl, hoffset⟩ := h.exists_append
  rw [hoffset, String.utf8ByteSize_append]
  exact Nat.le_add_right _ _

theorem StandsIn.isValid (h : s.StandsIn text) :
    String.Pos.Raw.IsValid text ⟨s.position.offset⟩ := by
  obtain ⟨front, htext, hoffset⟩ := h.exists_append
  rw [hoffset, String.Pos.Raw.isValid_iff_exists_append]
  exact ⟨front, String.ofList s.rest, htext, rfl⟩

end

/-! ## Any number of questions -/

/-- What is left of a source after asking for a token `n` times. -/
def asked (n : ℕ) (s : Source) : Source := (fun s ↦ s.next.2)^[n] s

theorem asked_succ (n : ℕ) (s : Source) : s.asked (n + 1) = (s.asked n).next.2 :=
  Function.iterate_succ_apply' _ n s

theorem results_succ (n : ℕ) (s : Source) :
    results (n + 1) s = results n s ++ [(s.asked n).next.1] := by
  induction n generalizing s with
  | zero => rfl
  | succ n ih => rw [results, ih s.next.2, results, List.cons_append]; rfl

theorem StandsIn.asked {s : Source} {text : String} (h : s.StandsIn text) (n : ℕ) :
    (s.asked n).StandsIn text := by
  induction n with
  | zero => exact h
  | succ n ih => exact asked_succ n s ▸ ih.next

theorem asked_eq_of_next_eq {s : Source} {n m : ℕ} (h : (s.asked n).next.2 = s.asked n)
    (hm : n ≤ m) : s.asked m = s.asked n := by
  induction m, hm using Nat.le_induction with
  | base => rfl
  | succ m _ ih => rw [asked_succ, ih, h]

/-- As long as all questions have moved the place on, it has been moved by a byte each time. -/
theorem le_offset_or_next_eq (s : Source) (n : ℕ) :
    n ≤ (s.asked n).position.offset ∨ (s.asked n).next.2 = s.asked n := by
  induction n with
  | zero => exact .inl (Nat.zero_le _)
  | succ n ih =>
    rcases (s.asked n).offset_lt_or_next_eq with hlt | ⟨-, heq⟩
    · rw [asked_succ]
      rcases ih with hle | heq
      · exact .inl (Nat.lt_of_le_of_lt hle hlt)
      · rw [heq] at hlt
        exact absurd hlt (Nat.lt_irrefl _)
    · exact .inr (by rw [asked_succ, heq, heq])

/-! ## Reading on -/

/-- How a text is read on after `n` questions, whatever the answers have been. -/
structure Resumes (text : String) (n : ℕ) : Prop where
  /-- One answer more is the one that the source has in store. -/
  results_eq : results (n + 1) (ofString text) =
    results n (ofString text) ++ [((ofString text).asked n).next.1]
  /-- The source stands in the text. -/
  stands : ((ofString text).asked n).StandsIn text
  /-- The offset is no place inside a character. -/
  isValid : String.Pos.Raw.IsValid text ⟨((ofString text).asked n).position.offset⟩
  /-- The offset does not pass the end of the text. -/
  offset_le_size : ((ofString text).asked n).position.offset ≤ text.utf8ByteSize
  /-- The offset does not go back. -/
  offset_le : ((ofString text).asked n).position.offset ≤
    ((ofString text).asked (n + 1)).position.offset
  /-- The answer names a place in the text. -/
  placeOf_isIn : (placeOf ((ofString text).asked n).next.1).IsIn text.toList
  /-- The offset goes on, or the answer is one that comes again and is all there is to come. -/
  moves_or_repeats : ((ofString text).asked n).position.offset <
      ((ofString text).asked (n + 1)).position.offset ∨
    (repeats ((ofString text).asked n).next.1 = true ∧
      ∀ m ≥ n, ((ofString text).asked m).next.1 = ((ofString text).asked n).next.1)
  /-- After as many questions as the text has bytes there is one answer only. -/
  constant : text.utf8ByteSize ≤ n →
    ((ofString text).asked n).next.1 = ((ofString text).asked text.utf8ByteSize).next.1
  /-- After an unterminated string comes the end of the text. -/
  eof_of_unterminatedString (p : Position)
    (h : ((ofString text).asked n).next.1 = .error ⟨.unterminatedString, p⟩) :
    ((ofString text).asked (n + 1)).next.1 = .ok (Token.eof (Position.following text.toList))

/-- However often a text is asked for a token, and whatever the answers are, its source stands in
the text and reads on from there, until it has one answer only. -/
theorem resumes (text : String) (n : ℕ) : Resumes text n := by
  have hstands (n : ℕ) : ((ofString text).asked n).StandsIn text :=
    StandsIn.asked ⟨[], rfl, rfl⟩ n
  have hmoves := ((ofString text).asked n).offset_lt_or_next_eq
  rw [← asked_succ] at hmoves
  refine ⟨results_succ n _, hstands n, (hstands n).isValid, (hstands n).offset_le, ?_,
    (hstands n).placeOf_isIn, ?_, fun hn ↦ ?_, fun p hp ↦ ?_⟩
  · rcases hmoves with hlt | ⟨-, heq⟩
    · exact Nat.le_of_lt hlt
    · rw [heq]
  · refine hmoves.imp_right fun ⟨hrepeats, heq⟩ ↦ ⟨hrepeats, fun m hm ↦ ?_⟩
    rw [asked_eq_of_next_eq (asked_succ n _ ▸ heq) hm]
  · -- at the latest, the source has come to the end of the text
    have hlast : ((ofString text).asked text.utf8ByteSize).next.2 =
        (ofString text).asked text.utf8ByteSize := by
      rcases (ofString text).le_offset_or_next_eq text.utf8ByteSize with hle | heq
      · rcases ((ofString text).asked text.utf8ByteSize).offset_lt_or_next_eq with hlt | ⟨-, heq⟩
        · have hend := (hstands (text.utf8ByteSize + 1)).offset_le
          rw [asked_succ] at hend
          omega
        · exact heq
      · exact heq
    rw [asked_eq_of_next_eq hlast hn]
  · have hnil := rest_eq_nil_of_unterminatedString hp
    rw [← asked_succ] at hnil
    obtain ⟨front, htext, hplace⟩ := hstands (n + 1)
    rw [hnil, List.append_nil] at htext
    rw [next_of_rest_eq_nil hnil, hplace, htext]

/-- A bad escape is left behind its backslash, outside the string, so that the closing quote opens
another one. -/
example : results 5 (ofString "'\\q'é") = [.error ⟨.invalidEscape 'q', ⟨1, 2, 1⟩⟩,
    .ok ⟨.identifier, "q", ⟨1, 3, 2⟩⟩, .error ⟨.unterminatedString, ⟨1, 4, 3⟩⟩,
    .ok (Token.eof ⟨1, 6, 6⟩), .ok (Token.eof ⟨1, 6, 6⟩)] := by decide +kernel

end Source

end TemplateExpr
