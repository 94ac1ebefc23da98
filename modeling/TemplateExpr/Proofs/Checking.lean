import Mathlib.Data.List.DropRight
import TemplateExpr.Command
import TemplateExpr.Proofs.Respacing
import TemplateExpr.Proofs.Streams

/-!
# Blanks around a text

A check takes the blanks off both ends of its text before it reads it, and a text that is read as it
stands keeps them. All the same a check accepts exactly what is read without it, and prints the same
tree (`Command.Check.run_eq_ok_iff`).

## Why the end is the difficult side

The blanks at the beginning are skipped anyway. Those at the end could only matter where a lexeme
reaches into them, and none does, because none ends with a blank (`Lexeme.not_isBlank_of_cut`): a
string ends with its quote, and no blank stands in a word. That is so of lexemes alone. A string
that is not closed loses a part of itself with the blanks, and so may a backslash before them. But
then neither text can be cut at all.

## Texts and not runs

So the two texts are compared by the terminals into which they can be cut (`Lexes.trimmed_iff`), and
never by what cutting does at each step. It makes no difference that the errors of a check differ
from those of its text: their places are counted from the first character that is no blank, and a
string that is not closed has fewer characters. Nothing is claimed about them but that there are
some.
-/

namespace TemplateExpr

open Text

/-! ## Lexemes -/

theorem Lexeme.not_isBlank_of_cut {cs text spelling rest : List Char} {kind : TokenKind}
    (h : cut cs = .token kind text spelling rest) (hkind : kind ≠ .eof) :
    ∀ c ∈ spelling.getLast?, isBlank c = false := by
  have hspelled := spelledAs_of_cut h hkind
  have hword : IsWord spelling → ∀ c ∈ spelling.getLast?, isBlank c = false :=
    fun hw c hc ↦ hw.blankFree c (List.mem_of_getLast? hc)
  cases kind with
  | identifier => exact hword (.inl hspelled.1)
  | number => exact hword (.inr (.inl hspelled.1))
  | symbol => exact hword (.inr (.inr ⟨_, hspelled⟩))
  | string =>
    obtain ⟨quote, body, hquote, rfl, -⟩ := hspelled
    intro c hc
    rw [← List.cons_append, List.getLast?_concat] at hc
    obtain rfl := Option.some.inj hc
    rcases hquote with rfl | rfl <;> rfl
  | eof => exact absurd rfl hkind

theorem Lexeme.cut_of_append_blanks {cs blanks text spelling rest : List Char} {kind : TokenKind}
    (h : cut (cs ++ blanks) = .token kind text spelling rest) (hkind : kind ≠ .eof)
    (hblanks : ∀ c ∈ blanks, isBlank c = true) :
    ∃ rest', rest = rest' ++ blanks ∧ cut cs = .token kind text spelling rest' := by
  have hsplit := chars_cut (cs ++ blanks)
  rw [h, Cut.chars] at hsplit
  obtain ⟨rest', rfl, rfl⟩ : ∃ rest', cs = spelling ++ rest' ∧ rest = rest' ++ blanks := by
    rcases List.append_eq_append_iff.1 hsplit with ⟨rest', hcs, hrest⟩ | ⟨extra, hspelling, hextra⟩
    · exact ⟨rest', hcs, hrest⟩
    -- what the lexeme has of the blanks is nothing, since it would end with them
    · have hnil : extra = [] := by
        by_contra hne
        have hlast := not_isBlank_of_cut h hkind (extra.getLast hne)
        rw [hspelling, List.getLast?_append_of_ne_nil _ hne] at hlast
        have hmem := List.mem_append_left rest (List.getLast_mem hne)
        rw [← hextra] at hmem
        exact absurd (hlast (List.getLast?_eq_some_getLast hne)) (by simp [hblanks _ hmem])
      rw [hnil, List.append_nil] at hspelling
      rw [hnil, List.nil_append] at hextra
      exact ⟨[], by rw [hspelling, List.append_nil], hextra.symm⟩
  rw [List.append_assoc] at h
  exact ⟨rest', rfl, cut_of_front h hkind fun x _ hx ↦ hx.trans (List.prefix_append _ _)⟩

/-! ## Texts -/

namespace Lexes

variable {cs ds blanks : List Char} {ts : List Terminal}

theorem append_blanks_iff (hblanks : ∀ c ∈ blanks, isBlank c = true) :
    Lexes (cs ++ blanks) ts ↔ Lexes cs ts := by
  have hnone : blanks.dropWhile isBlank = [] := List.dropWhile_eq_nil_iff.2 hblanks
  constructor
  · intro h
    generalize hds : cs ++ blanks = ds at h
    induction h generalizing cs with
    | blank h =>
      subst hds
      rw [List.dropWhile_eq_nil_iff] at h
      exact .blank (List.dropWhile_eq_nil_iff.2 (List.forall_mem_append.1 h).1)
    | piece hcut hkind _ ih =>
      subst hds
      have hne : cs.dropWhile isBlank ≠ [] := by
        intro hnil
        refine Lexeme.ne_nil_of_cut hcut hkind ?_
        rw [List.dropWhile_append, hnil]
        exact hnone
      rw [List.dropWhile_append, List.isEmpty_eq_false_iff.2 hne] at hcut
      obtain ⟨rest', rfl, hcut'⟩ := Lexeme.cut_of_append_blanks hcut hkind hblanks
      exact .piece hcut' hkind (ih rfl)
  · intro h
    have hbreaks : Breaks blanks := by
      intro c hc
      rw [isBreak, hblanks c (List.mem_of_mem_head? hc), Bool.true_or]
    have happend := h.append hbreaks (.blank hnone)
    rwa [List.append_nil] at happend

theorem of_dropWhile_eq (h : Lexes cs ts) (heq : ds.dropWhile isBlank = cs.dropWhile isBlank) :
    Lexes ds ts := by
  cases h with
  | blank h => exact .blank (heq.trans h)
  | piece hcut hkind h => exact .piece (heq ▸ hcut) hkind h

/-- A text has the terminals that it has without the blanks around it. -/
theorem trimmed_iff : Lexes (trimmed cs) ts ↔ Lexes cs ts := by
  have hleading : (cs.dropWhile isBlank).dropWhile isBlank = cs.dropWhile isBlank :=
    List.dropWhile_idempotent _ _
  have htrailing : Lexes ((cs.dropWhile isBlank).rdropWhile isBlank) ts ↔
      Lexes (cs.dropWhile isBlank) ts := by
    rw [← append_blanks_iff fun _ ↦ List.mem_rtakeWhile_imp, List.rdropWhile_append_rtakeWhile]
  refine htrailing.trans ⟨fun h ↦ ?_, fun h ↦ h.of_dropWhile_eq hleading⟩
  exact h.of_dropWhile_eq hleading.symm

end Lexes

/-! ## Reading -/

namespace Reading

variable {α : Type} {front : List Terminal} {phrase : α → Phrase} {r : Reading α} {s : String}
  {a : α}

theorem Recognizes.onText_toEnd_iff (hr : Recognizes front phrase r) :
    (toEnd r).onText s = .ok a ↔ ∃ ts, Lexes s.toList ts ∧
      ∃ d ≤ maxNesting, Derives (some "") d (phrase a) (front ++ ts) [] := by
  constructor
  · intro h
    rw [onText] at h
    split at h
    · next htokens =>
      obtain ⟨us, p, rfl, hlexes⟩ := Expr.lexes_of_tokens htokens
      exact ⟨_, hlexes, (hr.onTokens_append_stop_iff (isEof_of_lexes hlexes) rfl).1 h⟩
    · cases h
  · rintro ⟨ts, hlexes, hder⟩
    obtain ⟨us, p, htokens, rfl⟩ := Expr.tokens_of_lexes hlexes
    rw [onText, htokens]
    exact (hr.onTokens_append_stop_iff (isEof_of_lexes hlexes) rfl).2 hder

theorem Recognizes.onText_trimmed_iff (hr : Recognizes front phrase r) :
    (toEnd r).onText (String.ofList (trimmed s.toList)) = .ok a ↔ (toEnd r).onText s = .ok a := by
  rw [hr.onText_toEnd_iff, hr.onText_toEnd_iff, String.toList_ofList]
  exact exists_congr fun ts ↦ and_congr_left' Lexes.trimmed_iff

end Reading

/-! ## Checks -/

namespace Command.Check

theorem tree_eq_ok_iff {c : Check} {e : Expr} : c.tree = .ok e ↔
    (if c.asList then (Expr.listOfString c.text).map .comma else Expr.ofString c.text) =
      .ok e := by
  have hmap (x : Except ParseError (List Expr)) :
      x.map Expr.comma = .ok e ↔ ∃ es, x = .ok es ∧ .comma es = e := by
    cases x with
    | error _ => exact ⟨nofun, nofun⟩
    | ok es =>
      constructor
      · rintro ⟨⟩
        exact ⟨es, rfl, rfl⟩
      · rintro ⟨_, ⟨⟩, rfl⟩
        rfl
  rw [tree]
  split
  · rw [hmap, hmap]
    exact exists_congr fun es ↦ and_congr_left' Reading.recognizes_list.onText_trimmed_iff
  · exact Reading.recognizes_expression.onText_trimmed_iff

/-- A check is passed exactly if the text, with the blanks around it, is read as an expression or as
a list of them. What is printed is the tree that has been read: its infix form, or its JSON on one
line or over several, as is asked for. -/
theorem run_eq_ok_iff (c : Check) (v : Verdict) :
    c.run = .ok v ↔
      ∃ e, (if c.asList then (Expr.listOfString c.text).map .comma else Expr.ofString c.text) =
          .ok e ∧
        v = if c.syntaxOnly then .valid else .printed (match c.form with
          | .plain => e.text
          | .json => e.toJson.compact
          | .prettyJson => e.toJson.pretty) := by
  have hrun : c.run = .ok v ↔ ∃ e, c.tree = .ok e ∧
      v = if c.syntaxOnly then .valid else .printed (c.form.render e) := by
    rw [run]
    cases c.tree with
    | error _ => exact ⟨nofun, nofun⟩
    | ok e =>
      constructor
      · rintro ⟨⟩
        exact ⟨e, rfl, rfl⟩
      · rintro ⟨_, ⟨⟩, rfl⟩
        rfl
  rw [hrun]
  refine exists_congr fun e ↦ and_congr tree_eq_ok_iff ?_
  cases c.form with
  | plain | json | prettyJson => exact Iff.rfl

/-- The place of an error is counted without the blanks. -/
example :
    let t (p : Position) : ParseError := .unexpectedToken ⟨.symbol, "?", p⟩
    (⟨"\n?", .plain, false, false⟩ : Check).run = .error (.parse (t ⟨1, 1, 0⟩)) ∧
      Expr.ofString "\n?" = .error (t ⟨2, 1, 1⟩) :=
  ⟨by cbv, by cbv⟩

end Command.Check

end TemplateExpr
