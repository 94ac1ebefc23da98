import TemplateExpr.Proofs.Comparison

/-!
# Two readings of one stream

A `Simulation` says what two ways of reading the same stream have in common at the single steps: a
relation between computations that are begun at the same cursor, kept by looking at a token, by
passing one, by failing and by going on.

## Whole productions

It is the comparison in which nothing is translated (`Simulation.comparison`), so the readings have
it in common at whole productions, too. Nothing is shown of productions here that has not been shown
for comparisons; what is gained is that a stream need not be named as its own translation.

## Productions of a level

The productions of a level are compared wherever fewer tokens than some number are left
(`Simulation.NestedBelow`), because that is how an induction on the tokens meets them: the level
inside is known only behind a token that has been passed.
-/

namespace TemplateExpr

/-- What two ways of reading have in common, whatever they read. -/
structure Simulation (m m' : Type → Type) [Monad m] [MonadStateOf Cursor m]
    [MonadExceptOf ParseError m] [Monad m'] [MonadStateOf Cursor m']
    [MonadExceptOf ParseError m'] where
  /-- Two computations that are begun at a cursor have it in common. -/
  Rel {α : Type} : Cursor → m α → m' α → Prop
  /-- Nothing is done. -/
  rel_pure {α : Type} (c : Cursor) (a : α) : Rel c (pure a) (pure a)
  /-- One thing is done after another; tokens may have been passed in between. -/
  rel_bind {α β : Type} {c : Cursor} {x : m α} {x' : m' α} {f : α → m β} {f' : α → m' β}
    (head : Rel c x x') (tail : ∀ a c', c'.ahead.length ≤ c.ahead.length → Rel c' (f a) (f' a)) :
    Rel c (x >>= f) (x' >>= f')
  /-- The cursor is looked at. -/
  rel_get {α : Type} {c : Cursor} {f : Cursor → m α} {f' : Cursor → m' α}
    (tail : Rel c (f c) (f' c)) : Rel c (get >>= f) (get >>= f')
  /-- A token is passed. -/
  rel_skip {α : Type} {c : Cursor} {f : Unit → m α} {f' : Unit → m' α}
    (tail : Rel c.skip (f ()) (f' ())) : Rel c (Grammar.skip >>= f) (Grammar.skip >>= f')
  /-- The reading fails. -/
  rel_throw {α : Type} (c : Cursor) (e : ParseError) :
    Rel c (throw e : m α) (throw e : m' α)

namespace Simulation

variable {m m' : Type → Type} [Monad m] [MonadStateOf Cursor m] [MonadExceptOf ParseError m]
  [Monad m'] [MonadStateOf Cursor m'] [MonadExceptOf ParseError m']

/-! ## Comparison -/

def comparison (s : Simulation m m') : Comparison .refl m m' where
  Rel := s.Rel
  rel_pure := s.rel_pure
  rel_bind := s.rel_bind
  rel_get := s.rel_get
  rel_skip := s.rel_skip
  rel_throw {_ c e} _ := by
    have hid : e.mapToken Translation.refl.token = e := e.mapToken_id
    rw [hid]
    exact s.rel_throw c e

/-! ## Fewer tokens -/

/-- Two computations are related wherever fewer than `n` tokens are left. -/
def Below (s : Simulation m m') {α : Type} (n : Nat) (x : m α) (x' : m' α) : Prop :=
  ∀ c, c.ahead.length < n → s.Rel c x x'

/-- The productions of two levels are related wherever fewer than `n` tokens are left. -/
structure NestedBelow (s : Simulation m m') (n : Nat) (inner : Grammar.Nested m)
    (inner' : Grammar.Nested m') : Prop where
  /-- The expressions are related. -/
  expression : s.Below n inner.expression inner'.expression
  /-- The operands are related. -/
  operand : s.Below n inner.operand inner'.operand

theorem NestedBelow.comparison {s : Simulation m m'} {n : Nat} {inner : Grammar.Nested m}
    {inner' : Grammar.Nested m'} (h : s.NestedBelow n inner inner') :
    s.comparison.NestedBelow n inner inner' :=
  ⟨h.expression, h.operand⟩

variable [LawfulMonad m] [LawfulMonad m'] (s : Simulation m m') {c : Cursor}

/-! ## Productions -/

theorem rel_finish : s.Rel c (Grammar.finish : m Unit) (Grammar.finish : m' Unit) :=
  s.comparison.rel_finish

theorem rel_within (limit : Nat) (c : Cursor) :
    s.Rel c (Grammar.within limit).expression (Grammar.within limit).expression :=
  s.comparison.rel_within limit c

variable {s} {n : Nat}

theorem rel_list {e : m Expr} {e' : m' Expr} (h : s.Below n e e') (hc : c.ahead.length < n) :
    s.Rel c (Grammar.list e) (Grammar.list e') :=
  Comparison.rel_list (s := s.comparison) h hc

variable {inner : Grammar.Nested m} {inner' : Grammar.Nested m'}
  (h : s.NestedBelow n inner inner') (hc : c.ahead.length ≤ n)
include h hc

theorem rel_operand : s.Rel c (Grammar.operand inner) (Grammar.operand inner') :=
  Comparison.rel_operand h.comparison hc

theorem rel_expression : s.Rel c (Grammar.expression inner) (Grammar.expression inner') :=
  Comparison.rel_expression h.comparison hc

end Simulation

end TemplateExpr
