import TemplateExpr.Proofs.FilterNames
import TemplateExpr.Proofs.Sources
import TemplateExpr.Proofs.Translating

/-!
# Expressions and lists alike

What an expression and a list of expressions have in common as readings of a stream of tokens. A
list is what the rest of a list is after a comma, so it is a phrase as an expression is, with one
terminal in front of the stream that nobody reads (`Reading.Recognizes`).

## Two ways of being derived

A whole stream is read exactly as what is derived from it with the text of the end token as the name
at the end (`Reading.Recognizes.onTokens_toEnd_iff`). It is read in the same way whatever the end
token exactly as what is derived without a name there (`Reading.Recognizes.onTokens_concat_iff`).
The second statement comes from the first one for two end tokens with different texts.

## The terminal in front

The comma in front of a list is a terminal of the derivation and no token of the stream. It is
passed by nobody, so the tokens that a reading has passed are still those of the stream.
-/

namespace TemplateExpr

open Terminal

namespace Reading

variable {α : Type}

/-! ## Readings of phrases -/

/-- A reading that reads the phrases of a kind and nothing else, where some terminals stand before
the stream that cannot be pipes. -/
structure Recognizes (front : List Terminal) (phrase : α → Phrase) (r : Reading α) : Prop where
  /-- What stands before the stream has no part in the names of filters. -/
  plain : ∀ t ∈ front, t.spells "|" = false
  /-- The operators of the phrases are those of expressions. -/
  levels (a : α) : (phrase a).levels ⊆ BinaryOp.levels
  /-- The cursor is moved in the stream. -/
  moves (c : Cursor) : Moves c r
  /-- What is read is derived. -/
  sound {c c' : Cursor} {a : α} (h : r c = .ok a c') : ∃ d ≤ maxNesting,
    Derives (some c.stop.text) d (phrase a) (front ++ c.terminals) c'.terminals
  /-- What is derived is read. -/
  complete {c : Cursor} {d : Nat} {a : α} {rest : List Terminal}
    (h : Derives (some c.stop.text) d (phrase a) (front ++ c.terminals) rest)
    (hd : d ≤ maxNesting) : ∃ c', r c = .ok a c' ∧ c'.terminals = rest

theorem recognizes_expression : Recognizes [] .expression expression where
  plain := List.forall_mem_nil _
  levels _ := List.nil_subset _
  moves c := (translates_expression .refl c).moves
  sound {c _ _} h := by
    obtain ⟨-, d, hd, hder⟩ := (sound_within c.stop maxNesting).expression rfl h
    exact ⟨d, Nat.le_of_lt_succ hd, hder⟩
  complete {c _ _ _} h hd := by
    obtain ⟨c', hc', -, hrest⟩ :=
      ((complete_within c.stop maxNesting).expression rfl h).ok (Nat.lt_succ_of_le hd)
    exact ⟨c', hc', hrest⟩

theorem recognizes_list : Recognizes [symbol ","] .listRest list where
  plain := by decide
  levels _ := List.nil_subset _
  moves c := (translates_list .refl c).moves
  sound {c _ _} h := by
    obtain ⟨-, e, es, us, rfl, ⟨d, hd, hhead⟩, d', hd', htail⟩ :=
      sound_list (sound_within c.stop maxNesting).expression rfl h
    exact ⟨max d d', by omega, .listMore rfl hhead htail⟩
  complete {c _ _ rest} h hd := by
    have hr := fun {c₁} ↦ (complete_within c.stop maxNesting).expression (c := c₁)
    cases h with
    | listEnd hend => cases (show true = false from hend)
    | @listMore d d' e es _ _ _ _ _ head tail =>
      have hlist : Reaches c.stop (maxNesting + 1) (max d d') list c (e :: es) rest := by
        refine (hr rfl head).bind fun {c'} hstop hus ↦ ?_
        refine .of_eq (bind_of_ok (tokensLeft_apply c')) ?_
        exact (complete_listRest hr hstop (Nat.le_refl _) (hus ▸ tail)).map _
      obtain ⟨c', hc', -, hrest⟩ := hlist.ok (Nat.lt_succ_of_le hd)
      exact ⟨c', hc', hrest⟩

/-! ## Whole streams -/

section Whole

variable {r : Reading α} {ts : List Token} {a : α}

theorem onTokens_toEnd_eq_ok_iff :
    (toEnd r).onTokens ts = .ok a ↔ ∃ c, r (Cursor.ofTokens ts) = .ok a c ∧ c.terminals = [] := by
  constructor
  · intro h
    obtain ⟨c, hc⟩ := of_onTokens_eq_ok h
    exact ⟨c, of_toEnd_eq_ok hc⟩
  · rintro ⟨c, hc, hend⟩
    rw [onTokens, outcome_of_ok (toEnd_of_ok hc hend)]

theorem onTokens_toEnd_toEnd_eq_ok_iff :
    (toEnd (toEnd r)).onTokens ts = .ok a ↔ (toEnd r).onTokens ts = .ok a := by
  rw [onTokens_toEnd_eq_ok_iff, onTokens_toEnd_eq_ok_iff]
  constructor
  · rintro ⟨c, hc, -⟩
    exact ⟨c, of_toEnd_eq_ok hc⟩
  · rintro ⟨c, hc, hend⟩
    exact ⟨c, toEnd_of_ok hc hend, hend⟩

end Whole

namespace Recognizes

variable {front : List Terminal} {phrase : α → Phrase} {r : Reading α}
  (hr : Recognizes front phrase r)
include hr

/-! ## What is derived -/

/-- A whole stream is read exactly as what is derived from it. -/
theorem onTokens_toEnd_iff {ts : List Token} {a : α} : (toEnd r).onTokens ts = .ok a ↔
    ∃ d ≤ maxNesting, Derives (some (Cursor.stopOf ts).text) d (phrase a)
      (front ++ (Cursor.ofTokens ts).terminals) [] := by
  rw [onTokens_toEnd_eq_ok_iff]
  constructor
  · rintro ⟨c, hc, hend⟩
    obtain ⟨d, hd, hder⟩ := hr.sound hc
    exact ⟨d, hd, hend ▸ hder⟩
  · rintro ⟨d, hd, hder⟩
    exact hr.complete (c := Cursor.ofTokens ts) hder hd

theorem onTokens_append_stop_iff {us : List Token} {stop : Token} {a : α}
    (hus : ∀ t ∈ us, t.isEof = false) (hstop : stop.isEof = true) :
    (toEnd r).onTokens (us ++ [stop]) = .ok a ↔ ∃ d ≤ maxNesting,
      Derives (some stop.text) d (phrase a) (front ++ us.map Token.terminal) [] := by
  rw [hr.onTokens_toEnd_iff, stopOf_concat hus hstop, Cursor.terminals,
    ahead_ofTokens_concat hus hstop]

/-- Tokens are read in the same way whatever end token is put after them exactly as what is derived
from them without its help. -/
theorem onTokens_concat_iff {us : List Token} {a : α} (hus : ∀ t ∈ us, t.isEof = false) :
    (∀ stop : Token, stop.isEof = true → (toEnd r).onTokens (us ++ [stop]) = .ok a) ↔
      ∃ d ≤ maxNesting, Derives none d (phrase a) (front ++ us.map Token.terminal) [] := by
  constructor
  · intro h
    refine Derives.of_forall_atEnd fun s ↦ ?_
    exact (hr.onTokens_append_stop_iff hus rfl).1 (h ⟨.eof, s, Position.start⟩ rfl)
  · rintro ⟨d, hd, hder⟩ stop hstop
    exact (hr.onTokens_append_stop_iff hus hstop).2 ⟨d, hd, hder.mono⟩

/-! ## What is passed -/

theorem ahead_eq {ts : List Token} {a : α} {c : Cursor} (h : r (Cursor.ofTokens ts) = .ok a c) :
    (Cursor.ofTokens ts).ahead = c.behind.reverse ++ c.ahead := by
  have hmoves := (hr.moves (Cursor.ofTokens ts)).1
  rw [outcome_of_ok h] at hmoves
  exact Cursor.ahead_ofTokens_eq hmoves

end Recognizes

end Reading

end TemplateExpr
