import TemplateExpr.Proofs.Levels
import TemplateExpr.Proofs.Sources
import TemplateExpr.Proofs.Translating
import TemplateExpr.Session

/-!
# Sessions forget

A step of a session comes to the same as it would at the beginning of a stream that is made of the
tokens that are left (`Session.independent_of_reached`).

## What a session could remember

Two things stay from one step to the next: the tokens before the cursor and the number of open
levels. The tokens have no part in a reading (`Session.step_after`): putting tokens before a stream
is a translation of the stream, and every reading keeps to a translation.

## Open levels

A step that begins with no level open is the limited reading, whatever is in its account, and leaves
none open, no matter at which depth it fails (`Session.count_of_depth_eq_zero`). A level is closed
whatever comes of what is read in it, so a failure deep inside closes all levels on its way out.
From there on it is an induction on the steps.
-/

namespace TemplateExpr

namespace Counting

variable {α : Type}

/-! ## Readings that begin with no level open -/

/-- The outcome of a counting reading and the account that it leaves. -/
def outcomeFrom (x : Counting α) (t : Track) : Except ParseError α × Track :=
  match x t with
  | .ok a t => (.ok a, t)
  | .error e t => (.error e, t)

theorem outcomeFrom_of_counts {x : Counting α} {y : Reading α} {t : Track}
    (h : Counts maxNesting maxNesting (some maxNesting) t.cursor x y) (hdepth : t.depth = 0) :
    (outcomeFrom x t).1 = (y.outcome t.cursor).1 ∧
      (outcomeFrom x t).2.cursor = (y.outcome t.cursor).2 ∧ (outcomeFrom x t).2.depth = 0 := by
  have hlevels : t.depth + maxNesting = maxNesting := by rw [hdepth, Nat.zero_add]
  obtain ⟨os, hos⟩ := h.2 t rfl hlevels
  have hnone : os.find? (maxNesting < ·.level) = none :=
    List.find?_eq_none.2 fun o ho ↦ by simpa using hos.level_le rfl o ho
  rw [outcomeFrom, hos.same hnone]
  cases hy : y t.cursor with
  | ok a c =>
    rw [Reading.outcome_of_ok hy]
    exact ⟨rfl, rfl, hdepth⟩
  | error e c =>
    rw [Reading.outcome_of_error hy]
    exact ⟨rfl, rfl, hdepth⟩

end Counting

/-! ## Streams with other tokens before them -/

section Before

variable {c : Cursor}

/-- Some tokens are put before a stream. -/
def Translation.after (before : List Token) (h : ∀ t ∈ before, t.isEof = false) : Translation :=
  .replacing id refl.terminal_token before h

theorem Cursor.eq_after (c : Cursor) : ∃ h, c =
    (Translation.after c.behind h).cursor (ofTokens c.remaining) := by
  have hahead : ∀ t ∈ c.ahead, t.isEof = false := isEof_of_mem_ahead
  refine ⟨fun t ht ↦ c.isEof_of_mem t (List.mem_append_left _ ht), eq_of_parts ?_ ?_ ?_⟩
  · rfl
  · exact (ahead_ofTokens_concat hahead c.isEof_stop).symm.trans (List.map_id _).symm
  · exact (stopOf_concat hahead c.isEof_stop).symm

variable {α : Type} {before : List Token} {hbefore : ∀ t ∈ before, t.isEof = false}

theorem Cursor.offset_after (c : Cursor) :
    ((Translation.after before hbefore).cursor c).offset = before.length + c.offset := by
  rw [Nat.add_comm]
  exact List.length_append.trans (congrArg (· + _) (List.length_map id))

theorem Reading.Translates.outcome_after {x : Reading α}
    (h : Translates (.after before hbefore) c x x) :
    x.outcome ((Translation.after before hbefore).cursor c) =
      ((x.outcome c).1, (Translation.after before hbefore).cursor (x.outcome c).2) := by
  rw [h.outcome_eq]
  have herror : ∀ r : Except ParseError α,
      r.mapError (·.mapToken (Translation.after before hbefore).token) = r := by
    rintro (e | a)
    · exact congrArg Except.error e.mapToken_id
    · rfl
  rw [herror]

end Before

namespace Session

/-! ## Errors of a step -/

def failure? {α : Type} : Except ParseError α → Option ParseError
  | .error e => some e
  | .ok _ => none

theorem eq_error_of_failure? {α : Type} {r : Except ParseError α} {e : ParseError}
    (h : failure? r = some e) : r = .error e := by
  cases r with
  | error e' => exact congrArg Except.error (Option.some.inj h)
  | ok a => cases h

/-- Why a step has failed, if it has. -/
def Answer.error? : Answer → Option ParseError
  | expression result => failure? result
  | list result => failure? result
  | done result => failure? result
  | token _ | tokens _ | truth _ | nothing => none

/-! ## Tokens before a step -/

theorem report_after {α : Type} {before : List Token} {hbefore : ∀ t ∈ before, t.isEof = false}
    {c : Cursor} {x : Reading α} (answer : Except ParseError α → Answer)
    (h : Reading.Translates (.after before hbefore) c x x) :
    (x.outcome ((Translation.after before hbefore).cursor c)).map answer id =
      (answer (x.outcome c).1, (Translation.after before hbefore).cursor (x.outcome c).2) := by
  rw [h.outcome_after]
  rfl

/-- Tokens before a stream have no part in a step. -/
theorem step_after (before : List Token) (hbefore : ∀ t ∈ before, t.isEof = false) (c : Cursor)
    (s : Step) : step ((Translation.after before hbefore).cursor c) s =
      ((step c s).1, (Translation.after before hbefore).cursor (step c s).2) := by
  let φ := Translation.after before hbefore
  cases s with
  | expression => exact report_after .expression (Reading.translates_expression φ c)
  | list => exact report_after .list (Reading.translates_list φ c)
  | whole => exact report_after .expression (Reading.translates_expression φ c).toEnd
  | finish => exact report_after .done (Reading.translates_finish φ c)
  | expect lexeme => exact report_after .done (Reading.translates_expect φ c lexeme)
  | peek => exact congrArg (fun t ↦ (Answer.token t, φ.cursor c)) (φ.peek_cursor c)
  | peekIs lexeme =>
    exact congrArg (fun b ↦ (Answer.truth b, φ.cursor c)) (φ.peekIs_cursor c lexeme)
  | hasMore => exact congrArg (fun b ↦ (Answer.truth b, φ.cursor c)) (φ.hasMore_cursor c)
  | remaining =>
    have hremaining : (φ.cursor c).remaining = c.remaining :=
      congrArg (· ++ [c.stop]) (List.map_id c.ahead)
    exact congrArg (fun ts ↦ (Answer.tokens ts, φ.cursor c)) hremaining
  | skip => exact congrArg (fun c ↦ (Answer.nothing, c)) (φ.skip_cursor c)
  | accept lexeme =>
    have haccept : step (φ.cursor c) (.accept lexeme) = (.truth ((φ.cursor c).peekIs lexeme),
      if (φ.cursor c).peekIs lexeme then (φ.cursor c).skip else φ.cursor c) := rfl
    rw [haccept, φ.peekIs_cursor, φ.skip_cursor, ← apply_ite φ.cursor]
    rfl

/-- The error of a step that has failed holds the token at the cursor. -/
theorem token_of_step {c : Cursor} {s : Step} {e : ParseError}
    (h : (step c s).1.error? = some e) : e.token? = some (step c s).2.peek := by
  cases s with
  | expression =>
    exact (Reading.translates_expression .refl c).token_of_outcome (eq_error_of_failure? h)
  | list => exact (Reading.translates_list .refl c).token_of_outcome (eq_error_of_failure? h)
  | whole =>
    exact (Reading.translates_expression .refl c).toEnd.token_of_outcome (eq_error_of_failure? h)
  | finish => exact (Reading.translates_finish .refl c).token_of_outcome (eq_error_of_failure? h)
  | expect lexeme =>
    exact (Reading.translates_expect .refl c lexeme).token_of_outcome (eq_error_of_failure? h)
  | peek | peekIs | hasMore | remaining | skip | accept => cases h

/-! ## Steps with an account of the levels -/

def fresh (ts : List Token) : Track := ⟨Cursor.ofTokens ts, 0, []⟩

/-- Takes a step with an account of the levels: what reads an expression counts the levels that it
opens, guarded against too many, and what does not leaves the account as it is. -/
def count (t : Track) : Step → Answer × Track
  | .expression =>
    (Counting.outcomeFrom (Counting.expression (some maxNesting)) t).map .expression id
  | .list => (Counting.outcomeFrom (Counting.list (some maxNesting)) t).map .list id
  | .whole => (Counting.outcomeFrom (Counting.whole (some maxNesting)) t).map .expression id
  | s => ((step t.cursor s).1, { t with cursor := (step t.cursor s).2 })

/-- Takes steps one after the other, whether they fail or not, and leaves the account. -/
def countAll (t : Track) (steps : List Step) : Track := steps.foldl (fun t s ↦ (count t s).2) t

/-- If no level is open, a step is taken as if there were no account, and no level stays open. -/
theorem count_of_depth_eq_zero {t : Track} (h : t.depth = 0) (s : Step) :
    step t.cursor s = ((count t s).1, (count t s).2.cursor) ∧ (count t s).2.depth = 0 := by
  have hlimit : ∀ l ∈ some maxNesting, l = maxNesting := fun l hl ↦ (Option.some.inj hl).symm
  have hreport : ∀ {α : Type} {x : Counting α} {y : Reading α} (answer : _ → Answer),
      Counting.Counts maxNesting maxNesting (some maxNesting) t.cursor x y →
        (y.outcome t.cursor).map answer id =
          (answer (Counting.outcomeFrom x t).1, (Counting.outcomeFrom x t).2.cursor) ∧
        (Counting.outcomeFrom x t).2.depth = 0 := by
    intro α x y answer hcounts
    obtain ⟨hanswer, hcursor, hdepth⟩ := Counting.outcomeFrom_of_counts hcounts h
    rw [hanswer, hcursor]
    exact ⟨rfl, hdepth⟩
  cases s with
  | expression => exact hreport .expression (Counting.counts_expression hlimit t.cursor)
  | list => exact hreport .list (Counting.counts_list hlimit t.cursor)
  | whole => exact hreport .expression (Counting.counts_whole hlimit t.cursor)
  | _ => exact ⟨rfl, h⟩

/-! ## Independence -/

/-- What a step comes to where an account has been reached: no level is left open, an error holds
the token at the cursor, and all is as it would be at the beginning of the tokens that are left. -/
structure Independent (t : Track) (s : Step) : Prop where
  /-- The account makes no difference to the step. -/
  step_eq : step t.cursor s = ((count t s).1, (count t s).2.cursor)
  /-- All levels have been closed. -/
  depth_eq : (count t s).2.depth = 0
  /-- An error holds the token at the cursor. -/
  token_eq (e : ParseError) (h : (count t s).1.error? = some e) :
    e.token? = some (count t s).2.cursor.peek
  /-- The answer is the one of a fresh session. -/
  answer_eq : (count t s).1 = (count (fresh t.cursor.remaining) s).1
  /-- The cursor passes as many tokens as that of a fresh session. -/
  offset_eq : (count t s).2.cursor.offset =
    t.cursor.offset + (count (fresh t.cursor.remaining) s).2.cursor.offset

theorem independent_of_depth_eq_zero {t : Track} (h : t.depth = 0) (s : Step) :
    Independent t s := by
  obtain ⟨hstep, hdepth⟩ := count_of_depth_eq_zero h s
  obtain ⟨hfresh, -⟩ := count_of_depth_eq_zero (t := fresh t.cursor.remaining) rfl s
  obtain ⟨hbehind, hafter⟩ := t.cursor.eq_after
  have hsame := step_after t.cursor.behind hbehind (Cursor.ofTokens t.cursor.remaining) s
  have hbegin : (fresh t.cursor.remaining).cursor = Cursor.ofTokens t.cursor.remaining := rfl
  rw [← hafter, hstep, ← hbegin, hfresh] at hsame
  obtain ⟨hanswer, hcursor⟩ := Prod.mk.inj hsame
  refine ⟨hstep, hdepth, fun e he ↦ ?_, hanswer, ?_⟩
  · have htoken := token_of_step (c := t.cursor) (s := s) (e := e)
    rw [hstep] at htoken
    exact htoken he
  · rw [hcursor]
    exact Cursor.offset_after _

/-- After any steps the run of a session goes on from what has been reached, and no level is
open. -/
theorem run_append {t : Track} (h : t.depth = 0) (steps more : List Step) :
    run t.cursor (steps ++ more) = run t.cursor steps ++ run (countAll t steps).cursor more ∧
      (countAll t steps).depth = 0 := by
  induction steps generalizing t with
  | nil => exact ⟨rfl, h⟩
  | cons s steps ih =>
    obtain ⟨hstep, hdepth⟩ := count_of_depth_eq_zero h s
    obtain ⟨hrun, hdepth'⟩ := ih hdepth
    refine ⟨?_, hdepth'⟩
    rw [List.cons_append, run, run, hstep]
    exact congrArg (_ :: ·) hrun

/-! ## Sessions -/

/-- After any steps of a session, failed ones among them, no level is open, and the next step comes
to what it would come to at the beginning of the tokens that are left. -/
theorem independent_of_reached (ts : List Token) (steps : List Step) (s : Step) :
    let t := countAll (fresh ts) steps
    t.depth = 0 ∧ Independent t s ∧ run (Cursor.ofTokens ts) (steps ++ [s]) =
      run (Cursor.ofTokens ts) steps ++ [((count t s).1, (count t s).2.cursor.offset)] := by
  intro t
  obtain ⟨hrun, hdepth⟩ := run_append (t := fresh ts) rfl steps [s]
  have hindependent := independent_of_depth_eq_zero hdepth s
  refine ⟨hdepth, hindependent, hrun.trans (congrArg (_ ++ ·) ?_)⟩
  rw [run, hindependent.step_eq]
  rfl

end Session

end TemplateExpr
