import TemplateExpr.Event
import TemplateExpr.Proofs.Levels
import TemplateExpr.Proofs.Sources
import TemplateExpr.Proofs.Translating

/-!
# Reports

Reading a text is reported while it goes on: each token when it is cut off, where reading begins,
each token when it is passed, and the kind of the tree. The events of a text are computed afterwards
instead, from the tokens that the cursor has left behind it. Here the grammar is run once more by
readings that report (`Reporting`), in which whatever moves the cursor says which token it passes,
and the two accounts are the same. The productions need not be looked at for that: it is enough that
a single step passes a token or none (`Reporting.passing`).

## What an account says

An account names every token once (`Event.Accounts`). All tokens up to a fault of the text are
lexed; if there is no fault, the tokens that are passed are the first ones, in their order, up to
the one that an error holds or up to the end token.

## Records

What is seen of an event is a record of the log, with its level, its target and its text. An account
is made of such records, and each kind of them is written out (`Record.ofLexed` and the others), so
that it is said apart from the functions that make a record of an event. The same goes for the name
of the root of a tree (`Expr.RootNamed`).
-/

namespace TemplateExpr

/-- The tokens from a place on begin with the one at the place. -/
theorem Cursor.head?_remaining (c : Cursor) : c.remaining.head? = some c.peek := by
  obtain ⟨ts, hts⟩ := c.remaining_eq_cons
  rw [hts, List.head?_cons]

/-! ## Readings that report -/

/-- A cursor with what has been reported so far. -/
structure Report where
  /-- The cursor. -/
  cursor : Cursor
  /-- The events, the first one first. -/
  events : List Event

namespace Report

/-- The cursor is moved, and the tokens that it passes are reported. -/
def move (r : Report) (c : Cursor) : Report where
  cursor := c
  events := r.events ++ (c.behind.take (c.offset - r.cursor.offset)).reverse.map .consumed

theorem move_skip (r : Report) : r.move r.cursor.skip =
    ⟨r.cursor.skip, r.events ++ (r.cursor.ahead.take 1).map .consumed⟩ := by
  cases hahead : r.cursor.ahead with
  | nil =>
    rw [Cursor.skip_of_ahead_eq_nil hahead, move, Nat.sub_self]
    rfl
  | cons t ts =>
    have hbehind := Cursor.behind_skip_of_ahead_eq_cons hahead
    have hone : r.cursor.skip.offset - r.cursor.offset = 1 := by
      rw [Cursor.offset, Cursor.offset, hbehind, List.length_cons, Nat.add_sub_cancel_left]
    rw [move, hone, hbehind]
    rfl

end Report

/-- A computation that moves a cursor, reports and may fail. -/
abbrev Reporting := EStateM ParseError Report

namespace Reporting

variable {α : Type}

instance : MonadStateOf Cursor Reporting where
  get := fun r ↦ .ok r.cursor r
  set c := fun r ↦ .ok () (r.move c)
  modifyGet f := fun r ↦ .ok (f r.cursor).1 (r.move (f r.cursor).2)

def emit (e : Event) : Reporting Unit := fun r ↦ .ok () { r with events := r.events ++ [e] }

def toEnd : Reporting Expr := do
  let e ← (Grammar.within maxNesting).expression
  Grammar.finish
  return e

def whole : Reporting Expr := do
  let t ← Grammar.peek
  emit (.parsing t.position)
  let e ← toEnd
  emit (.parsed e.kindName)
  return e

/-- The outcome of a reading and its report. -/
def outcome (x : Reporting α) (r : Report) : Except ParseError α × List Event :=
  match x r with
  | .ok a r => (.ok a, r.events)
  | .error e r => (.error e, r.events)

/-- Reads a text as an expression and reports on it. -/
def onText (s : String) : Except ParseError Expr × List Event :=
  match (Source.ofString s).scan with
  | (ts, some e) => (.error (.lex e), ts.map .lexed)
  | (ts, none) => whole.outcome
    ⟨Cursor.ofTokens ts, ts.map .lexed ++ [.tokenized s.utf8ByteSize ts.length]⟩

/-! ## The tokens that are passed -/

/-- A reading passes some tokens, which are behind it then and no longer before it. -/
structure Passing (c : Cursor) (passed : List Token) (c' : Cursor) : Prop where
  /-- The tokens that have been passed are behind. -/
  behind : c'.behind = passed.reverse ++ c.behind
  /-- They were the next ones. -/
  ahead : c.ahead = passed ++ c'.ahead
  /-- The end token is the same. -/
  stop : c'.stop = c.stop

theorem Passing.refl (c : Cursor) : Passing c [] c := ⟨rfl, rfl, rfl⟩

theorem Passing.trans {c c' c'' : Cursor} {passed passed' : List Token} (h : Passing c passed c')
    (h' : Passing c' passed' c'') : Passing c (passed ++ passed') c'' where
  behind := by rw [h'.behind, h.behind, List.reverse_append, List.append_assoc]
  ahead := by rw [h.ahead, h'.ahead, List.append_assoc]
  stop := h'.stop.trans h.stop

theorem Passing.length_le {c c' : Cursor} {passed : List Token} (h : Passing c passed c') :
    c'.ahead.length ≤ c.ahead.length := by
  rw [h.ahead, List.length_append]
  exact Nat.le_add_left _ _

theorem passing_skip (c : Cursor) : Passing c (c.ahead.take 1) c.skip := by
  cases hahead : c.ahead with
  | nil =>
    rw [Cursor.skip_of_ahead_eq_nil hahead]
    exact Passing.refl c
  | cons t ts =>
    refine ⟨Cursor.behind_skip_of_ahead_eq_cons hahead, ?_, c.stop_skip⟩
    rw [Cursor.ahead_skip, hahead]
    rfl

/-- A reading passes some tokens, and one that reports does just the same and reports these. -/
def Passes (c : Cursor) (x : Reading α) (x' : Reporting α) : Prop :=
  ∃ passed, Passing c passed (Counting.final (x c)) ∧ ∀ events, x' ⟨c, events⟩ =
    Counting.mapFinal (fun c' ↦ ⟨c', events ++ passed.map .consumed⟩) (x c)

theorem passes_bind {β : Type} {c : Cursor} {x : Reading α} {x' : Reporting α}
    {f : α → Reading β} {f' : α → Reporting β} (head : Passes c x x')
    (tail : ∀ a c', c'.ahead.length ≤ c.ahead.length → Passes c' (f a) (f' a)) :
    Passes c (x >>= f) (x' >>= f') := by
  obtain ⟨passed, hpassing, hrun⟩ := head
  cases hx : x c with
  | ok a c₁ =>
    rw [hx] at hpassing hrun
    obtain ⟨passed', hpassing', hrun'⟩ := tail a c₁ hpassing.length_le
    refine ⟨passed ++ passed', ?_, fun events ↦ ?_⟩
    · rw [Reading.bind_of_ok hx]
      exact hpassing.trans hpassing'
    · rw [Reading.bind_of_ok hx, Reading.bind_of_ok (hrun events), hrun', List.map_append,
        List.append_assoc]
  | error e c₁ =>
    rw [hx] at hpassing hrun
    refine ⟨passed, ?_, fun events ↦ ?_⟩
    · rw [Reading.bind_of_error hx]
      exact hpassing
    · rw [Reading.bind_of_error hx, Reading.bind_of_error (hrun events)]
      rfl

/-- Passing the same tokens, as something that a reading and one that reports have in common. -/
def passing : Simulation Reading Reporting where
  Rel := Passes
  rel_pure c _ := ⟨[], Passing.refl c, fun events ↦ by simp; rfl⟩
  rel_bind := passes_bind
  rel_get tail := tail
  rel_skip {_ c f f'} tail := by
    obtain ⟨passed, hpassing, hrun⟩ := tail
    refine ⟨c.ahead.take 1 ++ passed, (passing_skip c).trans hpassing, fun events ↦ ?_⟩
    show f' () (Report.move ⟨c, events⟩ c.skip) = _
    rw [Report.move_skip ⟨c, events⟩, hrun, List.map_append, List.append_assoc]
    rfl
  rel_throw c _ := ⟨[], Passing.refl c, fun events ↦ by simp; rfl⟩

theorem passes_toEnd (c : Cursor) : Passes c Reading.whole toEnd := by
  refine passing.rel_bind (passing.rel_within maxNesting c) fun e c' _ ↦ ?_
  exact passing.rel_bind passing.rel_finish fun _ c'' _ ↦ passing.rel_pure c'' e

/-! ## Whole streams and texts -/

/-- The events of reading a stream, given the tokens that are passed and the outcome. -/
def eventsOf (c : Cursor) (passed : List Token) (result : Except ParseError Expr) : List Event :=
  .parsing c.peek.position :: passed.map .consumed ++
    match result with
    | .ok e => [.parsed e.kindName]
    | .error _ => []

theorem whole_apply (r : Report) : whole r =
    match toEnd ⟨r.cursor, r.events ++ [.parsing r.cursor.peek.position]⟩ with
    | .ok e r => .ok e ⟨r.cursor, r.events ++ [.parsed e.kindName]⟩
    | .error e r => .error e r := by
  show (toEnd >>= _ : Reporting Expr) _ = _
  cases h : toEnd ⟨r.cursor, r.events ++ [.parsing r.cursor.peek.position]⟩ with
  | ok e r' =>
    rw [Reading.bind_of_ok h]
    rfl
  | error e r' => rw [Reading.bind_of_error h]

theorem exists_outcome_whole (c : Cursor) : ∃ passed,
    Passing c passed (Reading.whole.outcome c).2 ∧ ∀ events, whole.outcome ⟨c, events⟩ =
      ((Reading.whole.outcome c).1, events ++ eventsOf c passed (Reading.whole.outcome c).1) := by
  obtain ⟨passed, hpassing, hrun⟩ := passes_toEnd c
  cases hc : Reading.whole c with
  | ok e c' =>
    rw [hc] at hpassing hrun
    rw [Reading.outcome_of_ok hc]
    refine ⟨passed, hpassing, fun events ↦ ?_⟩
    rw [outcome, whole_apply, hrun]
    simp [eventsOf, Counting.mapFinal]
  | error e c' =>
    rw [hc] at hpassing hrun
    rw [Reading.outcome_of_error hc]
    refine ⟨passed, hpassing, fun events ↦ ?_⟩
    rw [outcome, whole_apply, hrun]
    simp [eventsOf, Counting.mapFinal]

section

variable {ts : List Token}

/-! ## The events of a stream -/

/-- The events of a stream name the tokens that are passed. -/
theorem ofTokens_eq {passed : List Token}
    (h : Passing (Cursor.ofTokens ts) passed (Reading.whole.outcome (Cursor.ofTokens ts)).2) :
    Event.ofTokens ts = eventsOf (Cursor.ofTokens ts) passed (Reading.whole.onTokens ts) := by
  have hbehind : (Reading.whole.outcome (Cursor.ofTokens ts)).2.behind.reverse = passed := by
    rw [h.behind, List.reverse_append, List.reverse_reverse]
    rfl
  rw [Event.ofTokens]
  dsimp only
  rw [hbehind]
  rfl

/-- The events of a stream that are computed afterwards are the ones that are reported. -/
theorem outcome_whole (events : List Event) : whole.outcome ⟨Cursor.ofTokens ts, events⟩ =
    (Reading.whole.onTokens ts, events ++ Event.ofTokens ts) := by
  obtain ⟨passed, hpassing, hrun⟩ := exists_outcome_whole (Cursor.ofTokens ts)
  rw [hrun, ofTokens_eq hpassing]
  rfl

theorem ofTokens_of_ok {e : Expr} (h : Reading.whole.onTokens ts = .ok e) :
    Event.ofTokens ts = .parsing (Cursor.ofTokens ts).peek.position ::
      (Cursor.ofTokens ts).ahead.map .consumed ++ [.parsed e.kindName] := by
  obtain ⟨passed, hpassing, -⟩ := exists_outcome_whole (Cursor.ofTokens ts)
  obtain ⟨c, hc⟩ := Reading.of_onTokens_eq_ok h
  have hevents := ofTokens_eq hpassing
  have hnil : c.ahead = [] := List.map_eq_nil_iff.1 (Reading.of_toEnd_eq_ok hc).2
  rw [Reading.outcome_of_ok hc] at hpassing
  have hall := hpassing.ahead
  rw [hnil, List.append_nil] at hall
  rw [hevents, h, ← hall]
  rfl

/-- A stream that is refused is passed up to the token that the error holds. -/
theorem ofTokens_of_error {e : ParseError} (h : Reading.whole.onTokens ts = .error e) :
    ∃ passed left, (Cursor.ofTokens ts).ahead = passed ++ left ∧
      e.token? = (left ++ [(Cursor.ofTokens ts).stop]).head? ∧
      Event.ofTokens ts =
        .parsing (Cursor.ofTokens ts).peek.position :: passed.map .consumed := by
  obtain ⟨passed, hpassing, -⟩ := exists_outcome_whole (Cursor.ofTokens ts)
  obtain ⟨c, hc⟩ := Reading.of_onTokens_eq_error h
  have hevents := ofTokens_eq hpassing
  rw [Reading.outcome_of_error hc] at hpassing
  have hfound : e.token? = some c.peek :=
    (Reading.translates_expression .refl (Cursor.ofTokens ts)).toEnd.token_eq hc
  refine ⟨passed, c.ahead, hpassing.ahead, ?_, ?_⟩
  · rw [hfound, ← hpassing.stop]
    exact c.head?_remaining.symm
  · rw [hevents, h, eventsOf, List.append_nil]

end

theorem onText_eq (s : String) : onText s = (Expr.ofString s, Event.ofString s) := by
  rw [onText, Expr.ofString, Reading.onText, Source.tokens, Event.ofString]
  split
  · next hscan =>
    rw [hscan]
  · next hscan =>
    rw [hscan, outcome_whole]
    simp

end Reporting

/-! ## Tokens in the order in which they are asked for -/

namespace Source

theorem results_of_scan_eq_error {s : Source} {ts : List Token} {e : LexError}
    (h : s.scan = (ts, some e)) : s.results (ts.length + 1) = ts.map .ok ++ [.error e] ∧
      ∀ t ∈ ts, t.isEof = false := by
  fun_induction scan s generalizing ts with
  | case1 s e' he =>
    cases h
    exact ⟨congrArg (· :: []) he, List.forall_mem_nil _⟩
  | case2 => cases h
  | case3 s t ht heof _ ts error hscan ih =>
    cases h
    obtain ⟨hresults, hts⟩ := ih hscan
    refine ⟨?_, List.forall_mem_cons.2 ⟨by simpa using heof, hts⟩⟩
    rw [List.length_cons, results, ht, hresults]
    rfl

theorem results_of_scan_eq_none {s : Source} {ts : List Token} (h : s.scan = (ts, none)) :
    ∃ us stop, ts = us ++ [stop] ∧ s.results (us.length + 1) = (us ++ [stop]).map .ok ∧
      (∀ t ∈ us, t.isEof = false) ∧ stop.isEof = true := by
  fun_induction scan s generalizing ts with
  | case1 => cases h
  | case2 s t ht heof =>
    cases h
    exact ⟨[], t, rfl, congrArg (· :: []) ht, List.forall_mem_nil _, heof⟩
  | case3 s t ht heof _ ts error hscan ih =>
    cases h
    obtain ⟨us, stop, rfl, hresults, hus, hstop⟩ := ih hscan
    refine ⟨t :: us, stop, rfl, ?_, List.forall_mem_cons.2 ⟨by simpa using heof, hus⟩, hstop⟩
    rw [List.length_cons, results, ht, hresults]
    rfl

end Source

/-! ## The records of a log -/

namespace Record

/-- Where something is found, in print. -/
def placed (p : Position) : String :=
  "line " ++ toString p.line ++ ", column " ++ toString p.column

/-- The record of a token that is cut off a text. -/
def ofLexed (t : Token) : Record where
  severity := .trace
  target := "tplexpr::lexer"
  message := "lexed " ++ t.kind.text ++ " " ++ Text.quoted t.text ++ " at " ++ placed t.position

/-- The record of a text that has been cut to its end. -/
def ofTokenized (bytes tokens : Nat) : Record where
  severity := .debug
  target := "tplexpr::lexer"
  message := "tokenized " ++ toString bytes ++ " bytes into " ++ toString tokens ++ " tokens"

/-- The record of the place where reading begins. -/
def ofParsing (p : Position) : Record where
  severity := .debug
  target := "tplexpr::parser"
  message := "parsing expression at " ++ placed p

/-- The record of a token that is passed. -/
def ofConsumed (t : Token) : Record where
  severity := .trace
  target := "tplexpr::token_reader"
  message := "consumed " ++ Text.quoted t.text

/-- The record of a tree, given the name of its root. -/
def ofParsed (root : String) : Record where
  severity := .debug
  target := "tplexpr::parser"
  message := "parsed " ++ root ++ " node"

end Record

/-- The name under which the root of a tree is reported. -/
inductive Expr.RootNamed : Expr → String → Prop where
  | literal (v : Literal) : RootNamed (.literal v) "Literal"
  | name (n : String) : RootNamed (.name n) "Identifier"
  | unary (op : UnaryOp) (a : Expr) : RootNamed (.unary op a) "UnaryOperation"
  | binary (op : BinaryOp) (l r : Expr) : RootNamed (.binary op l r) "BinaryOperation"
  | ternary (c a b : Expr) : RootNamed (.ternary c a b) "TernaryOperation"
  | array (es : List Expr) : RootNamed (.array es) "ArrayContainer"
  | comma (es : List Expr) : RootNamed (.comma es) "CommaExpression"
  | call (f : Expr) (es : List Expr) : RootNamed (.call f es) "FunctionCall"
  | filter (n : String) (es : List Expr) : RootNamed (.filter n es) "FilterCall"

theorem Expr.rootNamed_kindName (e : Expr) : e.RootNamed e.kindName := by
  cases e with
  | literal v => exact .literal v
  | name n => exact .name n
  | unary op a => exact .unary op a
  | binary op l r => exact .binary op l r
  | ternary c a b => exact .ternary c a b
  | array es => exact .array es
  | comma es => exact .comma es
  | call f es => exact .call f es
  | filter n es => exact .filter n es

/-! ## Accounts -/

namespace Event

/-- The records of cutting a text into tokens. -/
def cutting (s : String) (ts : List Token) : List Record :=
  ts.map .ofLexed ++ [.ofTokenized s.utf8ByteSize ts.length]

/-- The tokens of a text up to its end: they are the answers when it is asked for tokens again and
again, and only the last one is an end token. -/
structure CutInto (s : String) (ts : List Token) (stop : Token) : Prop where
  /-- The answers are these tokens. -/
  results_eq : (Source.ofString s).results (ts.length + 1) = (ts ++ [stop]).map .ok
  /-- No end token is among those before the last one. -/
  isEof_eq_false : ∀ t ∈ ts, t.isEof = false
  /-- The last one is an end token. -/
  isEof_stop : stop.isEof = true

/-- What the log of a text has to say. Every token is named once when it is lexed, and the first
ones are named once more when they are passed. -/
inductive Accounts (s : String) : List Record → Prop where
  /-- The text has a fault. The tokens before it are lexed, and that is all. -/
  | unlexed {ts : List Token} {e : LexError}
      (results_eq : (Source.ofString s).results (ts.length + 1) = ts.map .ok ++ [.error e])
      (isEof_eq_false : ∀ t ∈ ts, t.isEof = false)
      (outcome : Expr.ofString s = .error (.lex e)) : Accounts s (ts.map .ofLexed)
  /-- The text is read. All its tokens are passed, and the last record names the root of the
  tree. -/
  | read {ts : List Token} {first stop : Token} {e : Expr} {root : String}
      (tokens : CutInto s ts stop) (begins : (ts ++ [stop]).head? = some first)
      (outcome : Expr.ofString s = .ok e) (named : e.RootNamed root) :
      Accounts s (cutting s (ts ++ [stop]) ++ .ofParsing first.position :: ts.map .ofConsumed ++
        [.ofParsed root])
  /-- The text is refused. The tokens before the one that the error holds are passed. -/
  | refused {passed left : List Token} {first stop : Token} {e : ParseError}
      (tokens : CutInto s (passed ++ left) stop)
      (begins : (passed ++ left ++ [stop]).head? = some first)
      (outcome : Expr.ofString s = .error e) (stops : e.token? = (left ++ [stop]).head?) :
      Accounts s (cutting s (passed ++ left ++ [stop]) ++ .ofParsing first.position ::
        passed.map .ofConsumed)

theorem map_record_lexed (ts : List Token) : (ts.map lexed).map record = ts.map .ofLexed :=
  List.map_map

theorem map_record_consumed (ts : List Token) :
    (ts.map consumed).map record = ts.map .ofConsumed :=
  List.map_map

theorem accounts_of_cutInto {s : String} {ts : List Token} {stop : Token}
    (tokens : CutInto s ts stop)
    (hread : Expr.ofString s = Reading.whole.onTokens (ts ++ [stop])) :
    Accounts s (cutting s (ts ++ [stop]) ++ (ofTokens (ts ++ [stop])).map record) := by
  have hahead := ahead_ofTokens_concat tokens.isEof_eq_false tokens.isEof_stop
  have hstop : (Cursor.ofTokens (ts ++ [stop])).stop = stop :=
    stopOf_concat tokens.isEof_eq_false tokens.isEof_stop
  have hbegins := (Cursor.ofTokens (ts ++ [stop])).head?_remaining
  rw [Cursor.remaining, hahead, hstop] at hbegins
  cases hresult : Reading.whole.onTokens (ts ++ [stop]) with
  | ok e =>
    rw [Reporting.ofTokens_of_ok hresult, hahead, List.map_append, List.map_cons,
      map_record_consumed, ← List.append_assoc]
    exact .read tokens hbegins (hread.trans hresult) e.rootNamed_kindName
  | error e =>
    obtain ⟨passed, left, hsplit, hstops, hevents⟩ := Reporting.ofTokens_of_error hresult
    rw [hahead] at hsplit
    rw [hstop] at hstops
    subst hsplit
    rw [hevents, List.map_cons, map_record_consumed]
    exact .refused tokens hbegins (hread.trans hresult) hstops

/-- The events of a text are what is reported while it is read, and the log that is made of them
accounts for every token of the text. -/
theorem ofString_accounts (s : String) :
    Reporting.onText s = (Expr.ofString s, ofString s) ∧ Accounts s (log s) := by
  refine ⟨Reporting.onText_eq s, ?_⟩
  rw [log, ofString]
  split
  · next ts e hscan =>
    obtain ⟨hresults, heof⟩ := Source.results_of_scan_eq_error hscan
    rw [map_record_lexed]
    exact .unlexed hresults heof (by rw [Expr.ofString, Reading.onText, Source.tokens, hscan])
  · next ts hscan =>
    obtain ⟨us, stop, rfl, hresults, heof, hstop⟩ := Source.results_of_scan_eq_none hscan
    have haccounts := accounts_of_cutInto ⟨hresults, heof, hstop⟩
      (by rw [Expr.ofString, Reading.onText, Source.tokens, hscan])
    rw [List.map_append, List.map_cons, map_record_lexed]
    rwa [cutting, List.append_assoc] at haccounts

/-- A text that is refused at its end: the pipe has no name after it but that of the end token, and
then a bracket is missing. -/
example :
    let ts : List Token := [⟨.symbol, "[", ⟨1, 1, 0⟩⟩, ⟨.identifier, "a", ⟨1, 2, 1⟩⟩,
      ⟨.symbol, "|", ⟨1, 3, 2⟩⟩]
    ofString "[a|" = (ts.map lexed ++ [lexed (Token.eof ⟨1, 4, 3⟩), tokenized 3 4]) ++
      parsing Position.start :: ts.map consumed := by decide +kernel

end Event

end TemplateExpr
