import TemplateExpr.Proofs.Progress

/-!
# Reading comes to an end

An attempt has an outcome only if it is allowed enough rounds and calls. Each round but the last
passes a token, and so does each call of a level inside another one, so as many as there are tokens
left are enough, and one more (`Attempt.reading_ends`). That holds without a limit of nesting, too.

## The same outcome

The outcome is then the one of the grammar. The grammar makes as many rounds as there are tokens
left and returns what it has, but the rounds are over before that, and the two are read side by side
(`Attempt.agreement`). They agree within a limit, and without one they agree as soon as the grammar
has a level for each token.

## Counting tokens

Two numbers bound the tokens that are left: one for the level, which goes down when a level is
entered, and one for a repetition, which goes down with its rounds. A level is entered behind a
token, and that is where the first of them goes down; within a level the tokens that are left are
known to be no more than it was entered with.
-/

namespace TemplateExpr.Attempt

open Reading

variable {α β : Type} {c : Cursor}

/-! ## Attempts and readings -/

/-- An attempt is not cut off, and it comes to the end to which a reading comes that moves in the
stream. -/
def Agrees (c : Cursor) (u : Attempt α) (x : Reading α) : Prop :=
  outcome? u c = some (x.outcome c) ∧ Reading.Moves c x

namespace Agrees

variable {u : Attempt α} {x : Reading α} {f : α → Attempt β} {g : α → Reading β}

/-- What comes next has to agree only where the reading has succeeded. -/
theorem bind (head : Agrees c u x) (tail : ∀ a c', x c = .ok a c' →
    c'.ahead.length ≤ c.ahead.length → Agrees c' (f a) (g a)) : Agrees c (u >>= f) (x >>= g) := by
  obtain ⟨houtcome, hmoves⟩ := head
  cases hx : x c with
  | ok a c' =>
    rw [outcome_of_ok hx] at houtcome
    rw [Reading.Moves, outcome_of_ok hx] at hmoves
    obtain ⟨htail, hmoves'⟩ := tail a c' hx hmoves.2
    have heq : (x >>= g).outcome c = (g a).outcome c' := by
      rw [outcome, outcome, EStateM.run, EStateM.run, bind_of_ok hx]
    rw [Agrees, Reading.Moves, outcome?_bind_of_ok houtcome, heq]
    exact ⟨htail, hmoves'.1.trans hmoves.1, hmoves'.2.trans hmoves.2⟩
  | error e c' =>
    rw [outcome_of_error hx] at houtcome
    rw [Reading.Moves, outcome_of_error hx] at hmoves
    rw [Agrees, Reading.Moves, outcome?_bind_of_error houtcome,
      outcome_of_error (bind_of_error hx)]
    exact ⟨rfl, hmoves⟩

end Agrees

/-- Coming to the same end, as something that an attempt and a reading have in common. -/
def agreement : Simulation Attempt Reading where
  Rel := Agrees
  rel_pure _ _ := ⟨rfl, rfl, le_rfl⟩
  rel_bind head tail := head.bind fun a c' _ ↦ tail a c'
  rel_get tail := tail
  rel_skip {_ c _ _} tail :=
    ⟨tail.1, tail.2.1.trans c.stream_skip, tail.2.2.trans c.length_ahead_skip_le⟩
  rel_throw _ _ := ⟨rfl, rfl, le_rfl⟩

namespace Agrees

theorem pure (c : Cursor) (a : α) : Agrees c (pure a) (pure a) := agreement.rel_pure c a

theorem get {f : Cursor → Attempt β} {g : Cursor → Reading β} (tail : Agrees c (f c) (g c)) :
    Agrees c (get >>= f) (get >>= g) := tail

theorem peek {f : Token → Attempt β} {g : Token → Reading β}
    (tail : Agrees c (f c.peek) (g c.peek)) : Agrees c (Grammar.peek >>= f) (Grammar.peek >>= g) :=
  tail

theorem skip {f : Unit → Attempt β} {g : Unit → Reading β}
    (tail : Agrees c.skip (f ()) (g ())) : Agrees c (Grammar.skip >>= f) (Grammar.skip >>= g) :=
  agreement.rel_skip tail

theorem accept {lexeme : String} {f : Bool → Attempt β} {g : Bool → Reading β}
    (htrue : c.skip.ahead.length < c.ahead.length → Agrees c.skip (f true) (g true))
    (hfalse : Agrees c (f false) (g false)) :
    Agrees c (Grammar.accept lexeme >>= f) (Grammar.accept lexeme >>= g) :=
  agreement.comparison.rel_accept htrue hfalse

theorem expect (c : Cursor) (lexeme : String) :
    Agrees c (Grammar.expect lexeme) (Grammar.expect lexeme) :=
  agreement.comparison.rel_expect lexeme

end Agrees

/-! ## Repetitions

The tokens that are left are fewer after each round, so the rounds of a repetition are enough if
they are more than the tokens that are left when it begins. -/

variable {b n k : Nat}

section Expression

variable {expression : Attempt Expr} {x : Reading Expr}
  (h : ∀ c, c.ahead.length < b → Agrees c expression x) (hx : Advances x)
include h hx

theorem agrees_listRounds (hc : c.ahead.length < b) (hk : c.ahead.length < k) (es : List Expr) :
    Agrees c (rounds (listRound expression) k es)
      (Grammar.list x >>= fun es' ↦ pure (es ++ es')) := by
  induction k generalizing c es with
  | zero => exact absurd hk (Nat.not_lt_zero _)
  | succ k ih =>
    rw [rounds, listRound, list_eq_moreItems, moreItems_round (x := x) hx]
    simp only [bind_assoc, pure_bind]
    refine (h c hc).bind fun e c₁ he hle ↦ .accept (fun hlt ↦ ?_) (.pure c₁ _)
    have hlt' := hx he
    have hrest := ih (show c₁.skip.ahead.length < b by omega) (by omega) (es ++ [e])
    simpa [list_eq_moreItems] using hrest

theorem agrees_list (hc : c.ahead.length < b) (hn : c.ahead.length < n) :
    Agrees c (list expression n) (Grammar.list x) := by
  have hrounds := agrees_listRounds h hx hc hn []
  simp only [List.nil_append, bind_pure] at hrounds
  exact hrounds

theorem agrees_arguments (hc : c.ahead.length < b) (hn : c.ahead.length < n) :
    Agrees c (arguments expression n) (Grammar.arguments x) := by
  have hclose (es : List Expr) (c₁ : Cursor) :
      Agrees c₁ (Grammar.expect ")" >>= fun _ ↦ pure es) (Grammar.expect ")" >>= fun _ ↦ pure es) :=
    (Agrees.expect c₁ ")").bind fun _ c₂ _ _ ↦ .pure c₂ es
  rw [arguments, Grammar.arguments]
  refine .get ?_
  split
  · exact hclose [] c
  · exact (agrees_list h hx hc hn).bind fun es c₁ _ _ ↦ hclose es c₁

theorem agrees_elementRounds (hc : c.ahead.length < b) (hk : c.ahead.length < k)
    (es : List Expr) : Agrees c (rounds (elementsRound expression) k es)
      (moreElements x >>= fun es' ↦ pure (es ++ es')) := by
  induction k generalizing c es with
  | zero => exact absurd hk (Nat.not_lt_zero _)
  | succ k ih =>
    rw [rounds, elementsRound, moreElements_round (x := x) hx]
    simp only [bind_assoc]
    refine .accept (fun _ ↦ by simpa using Agrees.pure _ es) ?_
    simp only [Bool.false_eq_true, if_false, bind_assoc]
    refine (h c hc).bind fun e c₁ he hle ↦ ?_
    have hlt := hx he
    have hrest (c₂ : Cursor) (hc₂ : c₂.ahead.length ≤ c₁.ahead.length) :
        Agrees c₂ (rounds (elementsRound expression) k (es ++ [e]))
          (moreElements x >>= fun es' ↦ pure (es ++ e :: es')) := by
      simpa using ih (by omega) (by omega) (es ++ [e])
    refine .accept (fun _ ↦ .pure _ _) ?_
    simp only [Bool.false_eq_true, if_false, bind_assoc, pure_bind]
    exact .accept (fun hlt' ↦ hrest _ hlt'.le) (hrest _ le_rfl)

theorem agrees_elements (hc : c.ahead.length < b) (hn : c.ahead.length < n) :
    Agrees c (elements expression n) (moreElements x) := by
  have hrounds := agrees_elementRounds h hx hc hn []
  simp only [List.nil_append, bind_pure] at hrounds
  exact hrounds

theorem agrees_suffixRounds (hx' : Advances (Grammar.arguments x)) (hc : c.ahead.length ≤ b)
    (hn : c.ahead.length < n) (hk : c.ahead.length < k) (e : Expr) :
    Agrees c (rounds (suffixRound expression n) k e) (moreSuffixes x e) := by
  induction k generalizing c e with
  | zero => exact absurd hk (Nat.not_lt_zero _)
  | succ k ih =>
    have hcall {c₁ : Cursor} (hlt : c₁.ahead.length < c.ahead.length) (f : List Expr → Expr) :
        Agrees c₁ (arguments expression n >>= fun es ↦ rounds (suffixRound expression n) k (f es))
          (Grammar.arguments x >>= fun es ↦ moreSuffixes x (f es)) :=
      (agrees_arguments h hx (by omega) (by omega)).bind fun es c₂ _ hle ↦
        ih (by omega) (by omega) (by omega) (f es)
    rw [rounds, suffixRound, moreSuffixes_round (x := x) hx']
    simp only [bind_assoc]
    refine .accept (fun hlt ↦ ?_) ?_
    · simp only [if_true, bind_assoc, pure_bind]
      exact hcall hlt _
    simp only [Bool.false_eq_true, if_false, bind_assoc]
    refine .accept (fun hlt ↦ ?_) (by simpa using Agrees.pure _ e)
    have hname := c.skip.length_ahead_skip_le
    simp only [if_true, bind_assoc, pure_bind, pipedFilter, namedFilter]
    refine .peek (.skip (.accept (fun hlt' ↦ ?_) (ih (by omega) (by omega) (by omega) _)))
    simp only [if_true, bind_assoc, pure_bind]
    exact hcall (hlt'.trans (hname.trans_lt hlt)) _

end Expression

section Chain

variable {next : Attempt Expr} {x : Reading Expr}
  (h : ∀ c, c.ahead.length ≤ b → Agrees c next x) (hx : Advances x)
  (operators : List (String × BinaryOp))
include h hx

theorem agrees_chainRounds (hc : c.ahead.length ≤ b) (hk : c.ahead.length < k) (left : Expr) :
    Agrees c (rounds (chainRound operators next) k left) (moreOperands operators x left) := by
  induction k generalizing c left with
  | zero => exact absurd hk (Nat.not_lt_zero _)
  | succ k ih =>
    rw [rounds, chainRound, moreOperands_round (x := x) hx]
    simp only [bind_assoc]
    refine .get ?_
    cases hop : Grammar.operatorAt? operators c with
    | none => exact .pure c left
    | some op =>
      have hskip := c.length_ahead_skip_le
      simp only [bind_assoc, pure_bind]
      refine .skip ((h _ (by omega)).bind fun right c₁ hright _ ↦ ?_)
      have hlt := hx hright
      exact ih (by omega) (by omega) (.binary op left right)

theorem agrees_chain (hc : c.ahead.length ≤ b) (hn : c.ahead.length < n) :
    Agrees c (chain operators next n) (Grammar.chain operators x) :=
  (h c hc).bind fun left _ _ hle ↦
    agrees_chainRounds h hx operators (hle.trans hc) (hle.trans_lt hn) left

end Chain

/-! ## Levels -/

/-- The productions of a level agree with the readings within a limit where fewer than `b` tokens
are left. -/
structure NestedAgrees (b : Nat) (inner : Grammar.Nested Attempt) (m : Nat) : Prop where
  /-- The expressions do. -/
  expression : ∀ c, c.ahead.length < b → Agrees c inner.expression (Grammar.within m).expression
  /-- The operands do. -/
  operand : ∀ c, c.ahead.length < b → Agrees c inner.operand (Grammar.within m).operand

theorem NestedAgrees.nestedBelow {inner : Grammar.Nested Attempt} {m : Nat}
    (h : NestedAgrees b inner m) : agreement.comparison.NestedBelow b inner (Grammar.within m) :=
  ⟨h.expression, h.operand⟩

theorem advances_chains (m : Nat) (levels : List (List (String × BinaryOp))) :
    Advances (levels.foldr Grammar.chain (Grammar.operand (Grammar.within m))) := by
  intro c e c' hread
  obtain ⟨-, d, -, hder⟩ := sound_chains (sound_operand (sound_within c.stop m)) levels rfl hread
  exact hder.length_ahead_lt rfl rfl rfl

section Level

variable {inner : Grammar.Nested Attempt} {m : Nat} (h : NestedAgrees b inner m) (hb : b < n)
include h hb

theorem agrees_operand (hc : c.ahead.length ≤ b) :
    Agrees c (operand inner n) (Grammar.operand (Grammar.within m)) := by
  refine .accept (fun hlt ↦ ?_) (.accept (fun hlt ↦ ?_) ?_)
  · refine (h.expression _ (by omega)).bind fun e c₁ _ _ ↦ ?_
    exact (Agrees.expect c₁ ")").bind fun _ c₂ _ _ ↦ .pure c₂ e
  · have hx := exact_expression m
    refine (agrees_elements h.expression hx.advances (by omega) (by omega)).bind fun es c₁ _ _ ↦ ?_
    exact .pure c₁ (Expr.array es)
  · exact Comparison.rel_simpleOperand h.nestedBelow hc

theorem agrees_chains (levels : List (List (String × BinaryOp))) (hc : c.ahead.length ≤ b) :
    Agrees c (chains inner n levels)
      (levels.foldr Grammar.chain (Grammar.operand (Grammar.within m))) := by
  induction levels generalizing c with
  | nil => exact agrees_operand h hb hc
  | cons operators tighter ih =>
    exact agrees_chain (fun c ↦ ih) (advances_chains m tighter) operators hc (hc.trans_lt hb)

theorem agrees_ternary (hc : c.ahead.length ≤ b) :
    Agrees c (ternary inner n) (Grammar.ternary (Grammar.within m)) := by
  refine (agrees_chains h hb BinaryOp.levels hc).bind fun condition c₁ _ hle ↦ ?_
  refine .accept (fun hlt ↦ ?_) (.pure c₁ condition)
  refine (h.expression _ (by omega)).bind fun a c₂ _ hle₂ ↦ ?_
  refine (Agrees.expect c₂ ":").bind fun _ c₃ _ hle₃ ↦ ?_
  exact (h.expression _ (by omega)).bind fun b c₄ _ _ ↦ .pure c₄ (Expr.ternary condition a b)

theorem agrees_expression (hc : c.ahead.length ≤ b) :
    Agrees c (expression inner n) (Grammar.expression (Grammar.within m)) := by
  refine (agrees_ternary h hb hc).bind fun e c₁ _ hle ↦ ?_
  have hx := exact_expression m
  exact agrees_suffixRounds h.expression hx.advances (exact_arguments hx).advances (hle.trans hc)
    ((hle.trans hc).trans_lt hb) ((hle.trans hc).trans_lt hb) e

end Level

/-! ## Limits -/

/-- The readings within `m` levels are those within a limit, or those without one of fewer than `m`
tokens. -/
def StandsFor (m b : Nat) : Option Nat → Prop
  | some limit => m = limit
  | none => b ≤ m

/-- As many calls as there are tokens left are enough, with a limit and without one. -/
theorem nestedAgrees_within {calls m : Nat} {limit : Option Nat} (hn : b ≤ n) (hcalls : b ≤ calls)
    (hm : StandsFor m b limit) : NestedAgrees b (within n calls limit) m := by
  induction calls generalizing b m limit with
  | zero =>
    obtain rfl := Nat.le_zero.1 hcalls
    exact ⟨fun _ hc ↦ absurd hc (Nat.not_lt_zero _), fun _ hc ↦ absurd hc (Nat.not_lt_zero _)⟩
  | succ calls ih =>
    -- what is inside is begun after the first token
    have hlevel {limit : Option Nat} {m : Nat} (hm : ∀ c : Cursor, c.ahead.length < b →
        StandsFor m c.ahead.length limit) :
        NestedAgrees b (level (within n calls limit) n) (m + 1) := by
      have hinner (c : Cursor) (hc : c.ahead.length < b) :
          NestedAgrees c.ahead.length (within n calls limit) m := ih (by omega) (by omega) (hm c hc)
      constructor
      · intro c hc
        exact agrees_expression (hinner c hc) (hc.trans_le hn) le_rfl
      · intro c hc
        exact agrees_operand (hinner c hc) (hc.trans_le hn) le_rfl
    match limit with
    | some 0 =>
      obtain rfl : m = 0 := hm
      have hdeep (c : Cursor) : Agrees c Grammar.tooDeep Grammar.tooDeep :=
        agreement.comparison.rel_tooDeep
      exact ⟨fun c _ ↦ hdeep c, fun c _ ↦ hdeep c⟩
    | some (limit + 1) =>
      obtain rfl : m = limit + 1 := hm
      exact hlevel fun _ _ ↦ rfl
    | none =>
      cases m with
      | zero =>
        obtain rfl := Nat.le_zero.1 (show b ≤ 0 from hm)
        exact ⟨fun _ hc ↦ absurd hc (Nat.not_lt_zero _), fun _ hc ↦ absurd hc (Nat.not_lt_zero _)⟩
      | succ m => exact hlevel fun c hc ↦ Nat.le_of_lt_succ (hc.trans_le hm)

theorem Agrees.toEnd {u : Attempt α} {x : Reading α} (h : Agrees c u x) :
    Agrees c (toEnd u) (Reading.toEnd x) :=
  h.bind fun a c₁ _ _ ↦ Agrees.bind (agreement.rel_finish (c := c₁)) fun _ c₂ _ _ ↦ .pure c₂ a

/-! ## Ends -/

/-- An attempt is not cut off, and it comes to the end to which a reading comes. -/
structure Ends (c : Cursor) (u : Attempt α) (x : Reading α) : Prop where
  /-- The outcome is that of the reading. -/
  outcome?_eq : outcome? u c = some (x.outcome c)
  /-- The cursor stays in the stream, whether the reading fails or not. -/
  stream_eq : (x.outcome c).2.stream = c.stream
  /-- It does not go back. -/
  offset_le : c.offset ≤ (x.outcome c).2.offset
  /-- It does not pass the end token. -/
  offset_lt : (x.outcome c).2.offset < c.stream.length
  /-- If the reading succeeds, it has passed a token. -/
  offset_lt_of_ok {a : α} (h : (x.outcome c).1 = .ok a) : c.offset < (x.outcome c).2.offset

theorem Agrees.ends {u : Attempt α} {x : Reading α} (h : Agrees c u x)
    (hmoves : Moves (fun _ ↦ 1) c u) : Ends c u x where
  outcome?_eq := h.1
  stream_eq := hmoves.stream_eq h.1
  offset_le := hmoves.offset_le h.1
  offset_lt := hmoves.offset_lt h.1
  offset_lt_of_ok {a} ha := by
    have houtcome : outcome? u c = some (.ok a, (x.outcome c).2) := ha ▸ h.1
    exact hmoves.offset_add_le houtcome

/-! ## Levels that end -/

/-- The productions of a level come to the ends to which those of the grammar come within `m`
levels. -/
structure LevelEnds (inner : Grammar.Nested Attempt) (n m : Nat) (c : Cursor) : Prop where
  nestedExpression : Ends c inner.expression (Grammar.within m).expression
  nestedOperand : Ends c inner.operand (Grammar.within m).operand
  whole : Ends c (toEnd inner.expression) (Reading.toEnd (Grammar.within m).expression)
  wholeList : Ends c (toEnd (list inner.expression n))
    (Reading.toEnd (Grammar.list (Grammar.within m).expression))
  expression : Ends c (expression inner n) (Grammar.expression (Grammar.within m))
  ternary : Ends c (ternary inner n) (Grammar.ternary (Grammar.within m))
  chain (levels : List (List (String × BinaryOp))) : Ends c (chains inner n levels)
    (levels.foldr Grammar.chain (Grammar.operand (Grammar.within m)))
  operand : Ends c (operand inner n) (Grammar.operand (Grammar.within m))
  list : Ends c (list inner.expression n) (Grammar.list (Grammar.within m).expression)
  arguments : Ends c (arguments inner.expression n)
    (Grammar.arguments (Grammar.within m).expression)
  elements : Ends c (elements inner.expression n) (moreElements (Grammar.within m).expression)

theorem levelEnds_within {n calls m : Nat} {limit : Option Nat} (hn : c.ahead.length < n)
    (hcalls : c.ahead.length < calls) (hm : StandsFor m (c.ahead.length + 1) limit) :
    LevelEnds (within n calls limit) n m c := by
  have h := nestedAgrees_within hn hcalls hm
  have h' : NestedAgrees c.ahead.length (within n calls limit) m :=
    ⟨fun c₁ hc₁ ↦ h.expression c₁ (hc₁.trans (Nat.lt_succ_self _)),
      fun c₁ hc₁ ↦ h.operand c₁ (hc₁.trans (Nat.lt_succ_self _))⟩
  have hx := exact_expression m
  have hlt := Nat.lt_succ_self c.ahead.length
  have hlist := agrees_list h.expression hx.advances hlt hn
  have hprogress := progress_of_nestedKeeps (keeps_within n calls limit) n c
  exact {
    nestedExpression := (h.expression c hlt).ends hprogress.nestedExpression
    nestedOperand := (h.operand c hlt).ends hprogress.nestedOperand
    whole := (h.expression c hlt).toEnd.ends hprogress.whole
    wholeList := hlist.toEnd.ends hprogress.wholeList
    expression := (agrees_expression h' hn le_rfl).ends hprogress.expression
    ternary := (agrees_ternary h' hn le_rfl).ends hprogress.ternary
    chain levels := (agrees_chains h' hn levels le_rfl).ends (hprogress.chain levels)
    operand := (agrees_operand h' hn le_rfl).ends hprogress.operand
    list := hlist.ends hprogress.list
    arguments := (agrees_arguments h.expression hx.advances hlt hn).ends hprogress.arguments
    elements := (agrees_elements h.expression hx.advances hlt hn).ends hprogress.elements }

/-- However much an attempt is allowed, it makes progress. If it is allowed more rounds and calls
than there are tokens left, it comes to an end, with any limit of nesting and without one, and with
the limit of the grammar that is where reading ends. -/
theorem reading_ends :
    (∀ n calls limit c, Progress (within n calls limit) n c) ∧
      ∀ n calls c, c.ahead.length < n → c.ahead.length < calls →
        (∀ limit m, StandsFor m (c.ahead.length + 1) limit →
          LevelEnds (within n calls limit) n m c) ∧
        Ends c (within n calls (some maxNesting)).expression Reading.expression ∧
        Ends c (list (within n calls (some maxNesting)).expression n) Reading.list ∧
        Ends c (toEnd (within n calls (some maxNesting)).expression) Reading.whole ∧
        Ends c (toEnd (list (within n calls (some maxNesting)).expression n))
          Reading.wholeList := by
  refine ⟨fun n calls limit c ↦ progress_of_nestedKeeps (keeps_within n calls limit) n c,
    fun n calls c hn hcalls ↦ ⟨fun limit m ↦ levelEnds_within hn hcalls, ?_⟩⟩
  have h : LevelEnds (within n calls (some maxNesting)) n maxNesting c :=
    levelEnds_within hn hcalls rfl
  exact ⟨h.nestedExpression, h.list, h.whole, h.wholeList⟩

theorem reading_ends_in_parentheses :
    let c := Cursor.ofTokens (["(", "(", "a", ")", ")"].map fun s ↦
      ⟨if s = "a" then .identifier else .symbol, s, ⟨1, 1, 0⟩⟩)
    c.ahead.length < 6 ∧ LevelEnds (within 6 6 none) 6 6 c ∧
      (outcome? (within 6 6 none).expression c).map Prod.fst = some (.ok (.name "a")) ∧
      outcome? (within 6 2 none).expression c = none := by
  intro c
  have hc : c.ahead.length < 6 := by decide
  have hends := (reading_ends.2 6 6 c hc hc).1 none 6 (Nat.le_refl 6)
  refine ⟨hc, hends, ?_, rfl⟩
  rw [hends.nestedExpression.outcome?_eq]
  rfl

end TemplateExpr.Attempt
