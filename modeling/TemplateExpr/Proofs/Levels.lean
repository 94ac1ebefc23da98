import TemplateExpr.Proofs.Recognition
import TemplateExpr.Proofs.Simulation

/-!
# Counting levels

The grammar run with a count of the levels that are open, and with or without a guard against too
many of them (`Counting`). Nothing of the sort is in `Grammar.within`, which is made of as many
levels as there may be and cannot count beyond them. The two agree (`limit_transparent`): a reading
with a limit is the counting one with the guard, and the guard changes nothing unless the counting
one without it opens a level too many. Then reading stops where that level is opened.

## Levels without a bound

Without a guard nothing but the tokens bounds the number of levels. Each level is opened after a
token has been passed, so one level for each token that is left is always enough, and the
productions satisfy the equation of an unbounded recursion (`Counting.productions_eq`). The bound in
their definition is there for the recursion to be structural, and it is never met.

## One account for both runs

The run without the guard goes on where the other one has stopped. What is compared is therefore the
run within the limit and the levels that the counting run opens: up to the first one beyond the
limit the two are the same, and after it the counting run may do as it likes (`Counting.Counted`).
An account is only ever added to, so that opening is still the first one beyond the limit when the
run has ended.
-/

namespace TemplateExpr

/-! ## Readings that count -/

/-- A level that has been opened. -/
structure Opening where
  /-- How many levels are open with it. -/
  level : Nat
  /-- Where it begins. -/
  cursor : Cursor

structure Track where
  /-- The cursor. -/
  cursor : Cursor
  /-- How many levels are open. -/
  depth : Nat
  /-- The levels that have been opened so far, the first one first. -/
  opened : List Opening

namespace Track

def deeper (t : Track) : Track where
  cursor := t.cursor
  depth := t.depth + 1
  opened := t.opened ++ [⟨t.depth + 1, t.cursor⟩]

def shallower (t : Track) : Track := { t with depth := t.depth - 1 }

end Track

/-- A computation that moves a cursor, keeps account of the levels and may fail. -/
abbrev Counting := EStateM ParseError Track

namespace Counting

variable {α σ τ : Type} {limit : Option Nat}

/-- The state that a computation leaves. -/
def final : EStateM.Result ParseError σ α → σ
  | .ok _ t => t
  | .error _ t => t

/-- A result with something done to the state that is left. -/
def mapFinal (f : σ → τ) : EStateM.Result ParseError σ α → EStateM.Result ParseError τ α
  | .ok a t => .ok a (f t)
  | .error e t => .error e (f t)

instance : MonadStateOf Cursor Counting where
  get := fun t ↦ .ok t.cursor t
  set c := fun t ↦ .ok () { t with cursor := c }
  modifyGet f := fun t ↦ .ok (f t.cursor).1 { t with cursor := (f t.cursor).2 }

/-- Reads one level deeper, and closes the level whatever comes of it. If there is a limit, no level
beyond it is opened. -/
def nested (limit : Option Nat) (x : Counting Expr) : Counting Expr := fun t ↦
  if limit.any (· ≤ t.depth) then .error (.nestingTooDeep t.cursor.peek) t
  else mapFinal Track.shallower (x t.deeper)

/-- The productions of a level, with no more than `bound` levels in all. -/
def levels (limit : Option Nat) : (bound : Nat) → Grammar.Nested Counting
  | 0 => ⟨Grammar.unexpected, Grammar.unexpected⟩
  | bound + 1 =>
    let inner := levels limit bound
    ⟨nested limit (Grammar.expression inner), nested limit (Grammar.operand inner)⟩

/-- The productions of a level, with as many levels inside it as there are tokens left. -/
def productions (limit : Option Nat) : Grammar.Nested Counting where
  expression t := (levels limit (t.cursor.ahead.length + 1)).expression t
  operand t := (levels limit (t.cursor.ahead.length + 1)).operand t

def expression (limit : Option Nat) : Counting Expr := (productions limit).expression

def list (limit : Option Nat) : Counting (List Expr) := Grammar.list (expression limit)

/-- A whole stream as an expression. -/
def whole (limit : Option Nat) : Counting Expr := do
  let e ← expression limit
  Grammar.finish
  return e

/-- The run of a reading that begins with no level open. -/
def run (x : Counting α) (c : Cursor) : EStateM.Result ParseError Track α := x ⟨c, 0, []⟩

/-- The outcome of a reading and the cursor that it leaves. -/
def outcome (x : Counting α) (c : Cursor) : Except ParseError α × Cursor :=
  match run x c with
  | .ok a t => (.ok a, t.cursor)
  | .error e t => (.error e, t.cursor)

/-- The levels that a reading opens, the first one first. -/
def opened (x : Counting α) (c : Cursor) : List Opening := (final (run x c)).opened

end Counting

/-- What the limit does to a reading. The readings that count are the same ones with the guard
against too many levels and without it. -/
structure Transparent {α : Type} (limited : Reading α) (counting : Option Nat → Counting α) :
    Prop where
  /-- The reading is the one that is guarded. -/
  outcome_guarded (c : Cursor) : Counting.outcome (counting (some maxNesting)) c = limited.outcome c
  /-- It never has more levels open than there may be. -/
  level_le (c : Cursor) : ∀ o ∈ Counting.opened (counting (some maxNesting)) c, o.level ≤ maxNesting
  /-- It closes the levels that it opens. -/
  depth_eq (c : Cursor) : (Counting.final (Counting.run (counting (some maxNesting)) c)).depth = 0
  /-- Without the guard it comes to the same, if there are never too many levels. -/
  outcome_eq (c : Cursor) (h : ∀ o ∈ Counting.opened (counting none) c, o.level ≤ maxNesting) :
    limited.outcome c = Counting.outcome (counting none) c
  /-- Else it stops where the first level too many is opened without the guard. -/
  outcome_tooDeep (c : Cursor) (o : Opening)
    (h : (Counting.opened (counting none) c).find? (maxNesting < ·.level) = some o) :
    o.level = maxNesting + 1 ∧
      limited.outcome c = (.error (.nestingTooDeep o.cursor.peek), o.cursor)

namespace Counting

variable {α : Type} {limit : Option Nat} {c : Cursor}

theorem final_mapFinal {σ τ : Type} (f : σ → τ) (r : EStateM.Result ParseError σ α) :
    final (mapFinal f r) = f (final r) := by
  cases r <;> rfl

theorem nested_of_le {limit : Nat} {t : Track} (h : limit ≤ t.depth) (x : Counting Expr) :
    nested (some limit) x t = .error (.nestingTooDeep t.cursor.peek) t :=
  if_pos (by simpa using h)

theorem nested_of_lt {t : Track} (h : ∀ n ∈ limit, t.depth < n) (x : Counting Expr) :
    nested limit x t = mapFinal Track.shallower (x t.deeper) := by
  refine if_neg ?_
  rw [Option.any_eq_true]
  rintro ⟨n, hn, hle⟩
  exact absurd (h n hn) (Nat.not_lt.2 (of_decide_eq_true hle))

/-! ## Accounts that go on -/

/-- A later account: no opening has been forgotten and no token given back. -/
structure Later (t t' : Track) : Prop where
  /-- What had been opened is still there. -/
  opened : t.opened <+: t'.opened
  /-- There are no more tokens left. -/
  cursor : t'.cursor.ahead.length ≤ t.cursor.ahead.length

theorem Later.refl (t : Track) : Later t t := ⟨List.prefix_refl _, le_rfl⟩

theorem Later.trans {t t' t'' : Track} (h : Later t t') (h' : Later t' t'') : Later t t'' :=
  ⟨h.opened.trans h'.opened, h'.cursor.trans h.cursor⟩

theorem Later.deeper (t : Track) : Later t t.deeper := ⟨List.prefix_append _ _, le_rfl⟩

/-- Two counting readings are the same where they are begun at a given cursor, and the account that
they leave is a later one. -/
def agreement : Simulation Counting Counting where
  Rel c x x' := ∀ t : Track, t.cursor = c → x t = x' t ∧ Later t (final (x t))
  rel_pure c a t _ := ⟨rfl, Later.refl t⟩
  rel_bind {_ _ c x x' f f'} head tail t ht := by
    obtain ⟨heq, hlater⟩ := head t ht
    cases hx : x t with
    | ok a t' =>
      rw [hx] at hlater
      obtain ⟨heq', hlater'⟩ := tail a t'.cursor (ht ▸ hlater.cursor) t' rfl
      rw [Reading.bind_of_ok hx, Reading.bind_of_ok (heq.symm.trans hx)]
      exact ⟨heq', hlater.trans hlater'⟩
    | error e t' =>
      rw [hx] at hlater
      rw [Reading.bind_of_error hx, Reading.bind_of_error (heq.symm.trans hx)]
      exact ⟨rfl, hlater⟩
  rel_get tail t ht := by
    subst ht
    exact tail t rfl
  rel_skip tail t ht := by
    subst ht
    obtain ⟨heq, hlater⟩ := tail { t with cursor := t.cursor.skip } rfl
    exact ⟨heq, hlater.opened, hlater.cursor.trans t.cursor.length_ahead_skip_le⟩
  rel_throw c e t _ := ⟨rfl, Later.refl t⟩

theorem agreement_nested {x x' : Counting Expr} (h : agreement.Rel c x x') :
    agreement.Rel c (nested limit x) (nested limit x') := by
  intro t ht
  obtain ⟨heq, hlater⟩ := h t.deeper ht
  rw [nested, nested, heq]
  refine ⟨rfl, ?_⟩
  split
  · exact Later.refl t
  · rw [final_mapFinal, ← heq]
    exact (Later.deeper t).trans ⟨hlater.opened, hlater.cursor⟩

/-! ## The equation of the recursion -/

/-- A bound on the levels makes no difference if it is larger than the number of tokens. -/
theorem agreement_levels {bound bound' : Nat} (h : c.ahead.length < bound)
    (h' : c.ahead.length < bound') :
    agreement.Rel c (levels limit bound).expression (levels limit bound').expression ∧
      agreement.Rel c (levels limit bound).operand (levels limit bound').operand := by
  induction bound generalizing bound' c with
  | zero => omega
  | succ bound ih =>
    obtain ⟨bound', rfl⟩ := Nat.exists_eq_add_one_of_ne_zero (Nat.ne_zero_of_lt h')
    have hinner : agreement.NestedBelow c.ahead.length (levels limit bound)
        (levels limit bound') := by
      constructor
      · exact fun c₁ hc₁ ↦ (ih (by omega) (by omega)).1
      · exact fun c₁ hc₁ ↦ (ih (by omega) (by omega)).2
    exact ⟨agreement_nested (Simulation.rel_expression hinner le_rfl),
      agreement_nested (Simulation.rel_operand hinner le_rfl)⟩

/-- Any bound that is large enough is as good as none. -/
theorem agreement_unbounded {bound : Nat} (h : c.ahead.length < bound) :
    agreement.Rel c (levels limit bound).expression (productions limit).expression ∧
      agreement.Rel c (levels limit bound).operand (productions limit).operand := by
  have hlevels : agreement.Rel c (levels limit bound).expression
        (levels limit (c.ahead.length + 1)).expression ∧
      agreement.Rel c (levels limit bound).operand (levels limit (c.ahead.length + 1)).operand :=
    agreement_levels h (Nat.lt_succ_self _)
  constructor
  · intro t ht
    subst ht
    exact hlevels.1 t rfl
  · intro t ht
    subst ht
    exact hlevels.2 t rfl

/-- The productions refer to themselves, one level deeper: the bound on the levels is never met. -/
theorem productions_eq (limit : Option Nat) : productions limit =
    ⟨nested limit (Grammar.expression (productions limit)),
      nested limit (Grammar.operand (productions limit))⟩ := by
  have hinner : ∀ n, agreement.NestedBelow n (levels limit n) (productions limit) :=
    fun n ↦ ⟨fun c hc ↦ (agreement_unbounded hc).1, fun c hc ↦ (agreement_unbounded hc).2⟩
  rw [Grammar.Nested.mk.injEq]
  constructor
  · funext t
    exact (agreement_nested (Simulation.rel_expression (hinner _) le_rfl) t rfl).1
  · funext t
    exact (agreement_nested (Simulation.rel_operand (hinner _) le_rfl) t rfl).1

theorem agreement_productions (n : Nat) (limit : Option Nat) :
    agreement.NestedBelow n (productions limit) (productions limit) := by
  constructor
  · intro c _ t ht
    obtain ⟨heq, hlater⟩ := (agreement_unbounded (Nat.lt_succ_self _)).1 t ht
    exact ⟨rfl, heq ▸ hlater⟩
  · intro c _ t ht
    obtain ⟨heq, hlater⟩ := (agreement_unbounded (Nat.lt_succ_self _)).2 t ht
    exact ⟨rfl, heq ▸ hlater⟩

/-! ## Counting against the limit -/

/-- What a counting run makes of an account, with the levels `os` opened on the way, against what a
run within a limit makes of the cursor. -/
structure Counted (most : Nat) (limit : Option Nat) (t : Track) (os : List Opening)
    (r : EStateM.Result ParseError Track α) (r' : EStateM.Result ParseError Cursor α) : Prop where
  /-- The levels are added to the account. -/
  opened : (final r).opened = t.opened ++ os
  /-- A guard lets none of them be one too many. -/
  level_le (h : limit.isSome) : ∀ o ∈ os, o.level ≤ most
  /-- If none is, both runs have the same outcome, and the levels have been closed again. -/
  same (h : os.find? (most < ·.level) = none) :
    r = mapFinal (fun c ↦ ⟨c, t.depth, t.opened ++ os⟩) r'
  /-- The run within the limit stops where the first level too many is opened. -/
  tooDeep {o : Opening} (h : os.find? (most < ·.level) = some o) :
    o.level = most + 1 ∧ r' = .error (.nestingTooDeep o.cursor.peek) o.cursor

variable {most n : Nat}

theorem Counted.of_nil {t : Track} {r : EStateM.Result ParseError Cursor α} :
    Counted most limit t [] (mapFinal (fun c ↦ { t with cursor := c }) r) r where
  opened := by
    rw [final_mapFinal, List.append_nil]
  level_le _ := nofun
  same _ := by rw [List.append_nil]
  tooDeep := nofun

section Bind

variable {β : Type} {t : Track} {os os' : List Opening}

theorem Counted.append {a : α} {t₁ : Track} {c₁ : Cursor}
    {r : EStateM.Result ParseError Track β} {r' : EStateM.Result ParseError Cursor β}
    (h : Counted most limit t os (.ok a t₁) (.ok a c₁)) (hos : os.find? (most < ·.level) = none)
    (h' : Counted most limit t₁ os' r r') : Counted most limit t (os ++ os') r r' := by
  have heq := h.same hos
  obtain rfl : t₁ = ⟨c₁, t.depth, t.opened ++ os⟩ := (EStateM.Result.ok.inj heq).2
  have hfind : (os ++ os').find? (most < ·.level) = os'.find? (most < ·.level) := by
    rw [List.find?_append, hos, Option.none_or]
  constructor
  · rw [h'.opened, List.append_assoc]
  · exact fun hlimit ↦ List.forall_mem_append.2 ⟨h.level_le hlimit, h'.level_le hlimit⟩
  · intro hnone
    rw [h'.same (hfind ▸ hnone), List.append_assoc]
  · exact fun ho ↦ h'.tooDeep (hfind ▸ ho)

theorem Counted.error {e : ParseError} {t₁ : Track} {c₁ : Cursor}
    (h : Counted most limit t os (.error e t₁ : EStateM.Result ParseError Track α) (.error e c₁)) :
    Counted most limit t os (.error e t₁ : EStateM.Result ParseError Track β) (.error e c₁) where
  opened := h.opened
  level_le := h.level_le
  same hos := by
    obtain ⟨-, rfl⟩ := EStateM.Result.error.inj (h.same hos)
    rfl
  tooDeep ho := by
    obtain ⟨hlevel, heq⟩ := h.tooDeep ho
    obtain ⟨rfl, rfl⟩ := EStateM.Result.error.inj heq
    exact ⟨hlevel, rfl⟩

theorem Counted.of_stopped {o : Opening} {r₁ : EStateM.Result ParseError Track α}
    {r₁' : EStateM.Result ParseError Cursor α} {r : EStateM.Result ParseError Track β}
    (h : Counted most limit t os r₁ r₁') (ho : os.find? (most < ·.level) = some o)
    (hr : (final r).opened = (final r₁).opened ++ os') :
    Counted most limit t (os ++ os') r (.error (.nestingTooDeep o.cursor.peek) o.cursor) := by
  have hfind : (os ++ os').find? (most < ·.level) = some o := by
    rw [List.find?_append, ho, Option.some_or]
  have hlt : most < o.level := by simpa using List.find?_some ho
  constructor
  · rw [hr, h.opened, List.append_assoc]
  · intro hlimit
    exact absurd (h.level_le hlimit o (List.mem_of_find?_eq_some ho)) (Nat.not_le.2 hlt)
  · intro hnone
    cases hfind.symm.trans hnone
  · intro o' ho'
    cases hfind.symm.trans ho'
    exact ⟨(h.tooDeep ho).1, rfl⟩

end Bind

/-! ## Levels within a limit -/

/-- A counting reading and one within a limit that has `n` levels left, where they are begun at a
given cursor. -/
def Counts (most n : Nat) (limit : Option Nat) (c : Cursor) (x : Counting α) (y : Reading α) :
    Prop :=
  agreement.Rel c x x ∧
    ∀ t : Track, t.cursor = c → t.depth + n = most → ∃ os, Counted most limit t os (x t) (y c)

theorem Counts.bind {β : Type} {x : Counting α} {y : Reading α} {f : α → Counting β}
    {g : α → Reading β} (head : Counts most n limit c x y)
    (tail : ∀ a c', c'.ahead.length ≤ c.ahead.length → Counts most n limit c' (f a) (g a)) :
    Counts most n limit c (x >>= f) (y >>= g) := by
  refine ⟨agreement.rel_bind head.1 fun a c' hc' ↦ (tail a c' hc').1, ?_⟩
  rintro t rfl hn
  obtain ⟨os, h⟩ := head.2 t rfl hn
  have hlater := (head.1 t rfl).2
  cases hfind : os.find? (most < ·.level) with
  | none =>
    have hx := h.same hfind
    cases hy : y t.cursor with
    | ok a c₁ =>
      rw [hy] at h hx
      rw [hx] at h hlater
      obtain ⟨os', h'⟩ := (tail a c₁ hlater.cursor).2 ⟨c₁, t.depth, t.opened ++ os⟩ rfl hn
      rw [Reading.bind_of_ok hx, Reading.bind_of_ok hy]
      exact ⟨os ++ os', h.append hfind h'⟩
    | error e c₁ =>
      rw [hy] at h hx
      rw [hx] at h
      rw [Reading.bind_of_error hx, Reading.bind_of_error hy]
      exact ⟨os, h.error⟩
  | some o =>
    -- without the guard the run goes on, and what it opens from here on does not matter
    have hopened : ∃ os', (final ((x >>= f) t)).opened = (final (x t)).opened ++ os' := by
      cases hx : x t with
      | ok a t₁ =>
        rw [hx] at hlater
        obtain ⟨os', hos'⟩ := ((tail a t₁.cursor hlater.cursor).1 t₁ rfl).2.opened
        exact ⟨os', by rw [Reading.bind_of_ok hx, ← hos']; rfl⟩
      | error e t₁ => exact ⟨[], by rw [Reading.bind_of_error hx, List.append_nil]; rfl⟩
    obtain ⟨os', hos'⟩ := hopened
    rw [Reading.bind_of_error (h.tooDeep hfind).2]
    exact ⟨os ++ os', h.of_stopped hfind hos'⟩

/-- What is counted at a level is counted at the level around it. -/
theorem Counts.nested {x : Counting Expr} {y : Reading Expr} (h : Counts most n limit c x y)
    (hlimit : ∀ l ∈ limit, l = most) : Counts most (n + 1) limit c (nested limit x) y := by
  refine ⟨agreement_nested h.1, ?_⟩
  rintro t rfl hn
  have hdepth : t.deeper.depth + n = most := by
    rw [← hn, ← Nat.add_assoc, Nat.add_right_comm]
    rfl
  obtain ⟨os, hos⟩ := h.2 t.deeper rfl hdepth
  have hlt : ∀ l ∈ limit, t.depth < l := fun l hl ↦ by rw [hlimit l hl]; omega
  have hfind : (⟨t.depth + 1, t.cursor⟩ :: os : List Opening).find? (most < ·.level) =
      os.find? (most < ·.level) := List.find?_cons_of_neg (by simp; omega)
  rw [nested_of_lt hlt]
  refine ⟨⟨t.depth + 1, t.cursor⟩ :: os, ?_⟩
  constructor
  · rw [final_mapFinal, List.append_cons]
    exact hos.opened
  · exact fun hsome ↦ List.forall_mem_cons.2 ⟨by dsimp only; omega, hos.level_le hsome⟩
  · intro hnone
    rw [hos.same (hfind ▸ hnone), List.append_cons]
    cases y t.cursor <;> rfl
  · exact fun ho ↦ hos.tooDeep (hfind ▸ ho)

/-- With no level left, no level is opened. -/
theorem Counts.of_tooDeep {x : Counting Expr} (h : agreement.Rel c x x)
    (hlimit : ∀ l ∈ limit, l = most) :
    Counts most 0 limit c (Counting.nested limit x) (Grammar.tooDeep : Reading Expr) := by
  refine ⟨agreement_nested h, ?_⟩
  rintro t rfl hn
  cases limit with
  | some l =>
    obtain rfl := hlimit l rfl
    rw [nested_of_le (by omega)]
    exact ⟨[], .of_nil (r := .error (.nestingTooDeep t.cursor.peek) t.cursor)⟩
  | none =>
    obtain ⟨os, hos⟩ := (h t.deeper rfl).2.opened
    have hfind : (⟨t.depth + 1, t.cursor⟩ :: os : List Opening).find? (most < ·.level) =
        some ⟨t.depth + 1, t.cursor⟩ := List.find?_cons_of_pos (by simp; omega)
    have hlt : ∀ l ∈ (none : Option Nat), t.depth < l := nofun
    rw [nested_of_lt hlt]
    refine ⟨⟨t.depth + 1, t.cursor⟩ :: os, ?_⟩
    constructor
    · rw [final_mapFinal, List.append_cons]
      exact hos.symm
    · exact fun hsome ↦ absurd hsome Bool.false_ne_true
    · intro hnone
      cases hfind.symm.trans hnone
    · intro o ho
      cases hfind.symm.trans ho
      exact ⟨congrArg (· + 1) hn, rfl⟩

/-- Counting levels, as what a counting reading and one within a limit have in common. -/
def counting (most n : Nat) (limit : Option Nat) : Simulation Counting Reading where
  Rel := Counts most n limit
  rel_pure c a := by
    refine ⟨agreement.rel_pure c a, ?_⟩
    rintro t rfl _
    exact ⟨[], .of_nil (r := .ok a t.cursor)⟩
  rel_bind head tail := head.bind tail
  rel_get tail := by
    refine ⟨agreement.rel_get tail.1, ?_⟩
    rintro t rfl hn
    exact tail.2 t rfl hn
  rel_skip tail := by
    refine ⟨agreement.rel_skip tail.1, ?_⟩
    rintro t rfl hn
    obtain ⟨os, h⟩ := tail.2 { t with cursor := t.cursor.skip } rfl hn
    exact ⟨os, h.opened, h.level_le, h.same, h.tooDeep⟩
  rel_throw c e := by
    refine ⟨agreement.rel_throw c e, ?_⟩
    rintro t rfl _
    exact ⟨[], .of_nil (r := .error e t.cursor)⟩

/-- The productions of a level within which `n` levels may be open, counted. -/
theorem counting_within (hlimit : ∀ l ∈ limit, l = most) (n : Nat) :
    ∀ k, (counting most n limit).NestedBelow k (productions limit) (Grammar.within n) := by
  induction n with
  | zero =>
    intro k
    rw [productions_eq]
    constructor
    · exact fun c _ ↦ .of_tooDeep
        (Simulation.rel_expression (agreement_productions _ limit) le_rfl) hlimit
    · exact fun c _ ↦ .of_tooDeep
        (Simulation.rel_operand (agreement_productions _ limit) le_rfl) hlimit
  | succ n ih =>
    intro k
    rw [productions_eq]
    constructor
    · exact fun c _ ↦ Counts.nested (Simulation.rel_expression (ih _) le_rfl) hlimit
    · exact fun c _ ↦ Counts.nested (Simulation.rel_operand (ih _) le_rfl) hlimit

end Counting

/-- What counts at every cursor, with the guard and without it, is transparent to the limit. -/
theorem transparent_of_counts {α : Type} {limited : Reading α} {x : Option Nat → Counting α}
    (h : ∀ limit, (∀ l ∈ limit, l = maxNesting) → ∀ c,
      Counting.Counts maxNesting maxNesting limit c (x limit) limited) :
    Transparent limited x := by
  have hcounted : ∀ limit, (∀ l ∈ limit, l = maxNesting) → ∀ c,
      Counting.Counted maxNesting limit ⟨c, 0, []⟩ (Counting.opened (x limit) c)
        (Counting.run (x limit) c) (limited c) := by
    intro limit hlimit c
    obtain ⟨os, hos⟩ := (h limit hlimit c).2 ⟨c, 0, []⟩ rfl (Nat.zero_add _)
    have heq : Counting.opened (x limit) c = os := hos.opened
    rwa [heq]
  have hguarded := hcounted (some maxNesting) fun l hl ↦ (Option.some.inj hl).symm
  have hfree := hcounted none nofun
  -- a run with the same outcome leaves the same cursor, and its levels are closed again
  have hsame : ∀ limit c, (∀ o ∈ Counting.opened (x limit) c, o.level ≤ maxNesting) →
      Counting.Counted maxNesting limit ⟨c, 0, []⟩ (Counting.opened (x limit) c)
        (Counting.run (x limit) c) (limited c) →
      Counting.outcome (x limit) c = limited.outcome c ∧
        (Counting.final (Counting.run (x limit) c)).depth = 0 := by
    intro limit c hle hc
    have hnone : (Counting.opened (x limit) c).find? (maxNesting < ·.level) = none :=
      List.find?_eq_none.2 fun o ho ↦ by simpa using hle o ho
    rw [Counting.outcome, Reading.outcome, EStateM.run, hc.same hnone]
    cases limited c <;> exact ⟨rfl, rfl⟩
  constructor
  · exact fun c ↦ (hsame _ c ((hguarded c).level_le rfl) (hguarded c)).1
  · exact fun c ↦ (hguarded c).level_le rfl
  · exact fun c ↦ (hsame _ c ((hguarded c).level_le rfl) (hguarded c)).2
  · exact fun c hle ↦ (hsame _ c hle (hfree c)).1.symm
  · intro c o ho
    obtain ⟨hlevel, heq⟩ := (hfree c).tooDeep ho
    exact ⟨hlevel, Reading.outcome_of_error heq⟩

namespace Counting

variable {limit : Option Nat}

/-! ## The limit is transparent -/

theorem counts_expression (hlimit : ∀ l ∈ limit, l = maxNesting) (c : Cursor) :
    Counts maxNesting maxNesting limit c (expression limit) Reading.expression :=
  (counting_within hlimit maxNesting _).expression c (Nat.lt_succ_self _)

theorem counts_list (hlimit : ∀ l ∈ limit, l = maxNesting) (c : Cursor) :
    Counts maxNesting maxNesting limit c (list limit) Reading.list :=
  Simulation.rel_list (s := counting maxNesting maxNesting limit)
    (fun c _ ↦ counts_expression hlimit c) (Nat.lt_succ_self _)

theorem counts_whole (hlimit : ∀ l ∈ limit, l = maxNesting) (c : Cursor) :
    Counts maxNesting maxNesting limit c (whole limit) Reading.whole := by
  let s := counting maxNesting maxNesting limit
  refine s.rel_bind (counts_expression hlimit c) fun e c₁ _ ↦ ?_
  exact s.rel_bind s.rel_finish fun _ c₂ _ ↦ s.rel_pure c₂ e

end Counting

/-- The limit is transparent to whole streams, to expressions and to lists of expressions. -/
theorem limit_transparent : Transparent Reading.whole Counting.whole ∧
    Transparent Reading.expression Counting.expression ∧
    Transparent Reading.list Counting.list := by
  refine ⟨transparent_of_counts fun limit hlimit c ↦ ?_,
    transparent_of_counts fun limit hlimit c ↦ ?_, transparent_of_counts fun limit hlimit c ↦ ?_⟩
  · exact Counting.counts_whole hlimit c
  · exact Counting.counts_expression hlimit c
  · exact Counting.counts_list hlimit c

end TemplateExpr
