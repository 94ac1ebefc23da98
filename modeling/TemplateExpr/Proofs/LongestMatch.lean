import TemplateExpr.Proofs.Literals

/-!
# The longest match

What the lexemes of a text are, said without the functions that cut them off. A name, a number and a
symbol are each given by a pattern (`Lexeme.IsWord`), a string by the way in which its characters
are written between its quotes (`Lexeme.Unquotes`). A piece that is cut off a text is spelled as its
token prescribes (`Lexeme.spelledAs_of_cut`), and no longer name, number or symbol begins where it
begins (`Lexeme.length_le_of_cut`).

## Names and numbers

For these, that comes from taking each run of characters of one class as far as it goes: where a run
ends, the pattern can only go on with a character of another class. A fraction and an exponent may
be missing, and then the text after the digits does not begin one. So it is shown for each part that
what is split off is at least as long as any match, whatever follows the match.

## Symbols

For these, it comes from the order of their list, in which a symbol stands behind every longer one
that it begins (`Lexeme.pairwise_symbols`).

## Strings

No pattern is given for strings, and none is longer or shorter: a string ends at the first quote
that is not escaped. What is said of them is how the text of the token comes from its spelling.
-/

namespace TemplateExpr

open Text

namespace Lexeme

/-! ## Patterns -/

/-- One digit or more. -/
def IsDigits (cs : List Char) : Prop := cs ≠ [] ∧ ∀ c ∈ cs, c.isDigit = true

/-- Nothing, or a point and digits. -/
def IsFraction (cs : List Char) : Prop := cs = [] ∨ ∃ ds, IsDigits ds ∧ cs = '.' :: ds

/-- Nothing, or a letter `e` of either case and digits, with or without a sign before them. -/
def IsExponent (cs : List Char) : Prop :=
  cs = [] ∨ ∃ c sign ds, (c = 'e' ∨ c = 'E') ∧ sign ∈ [[], ['+'], ['-']] ∧ IsDigits ds ∧
    cs = c :: (sign ++ ds)

def IsNumber (cs : List Char) : Prop :=
  ∃ whole fraction exponent, IsDigits whole ∧ IsFraction fraction ∧ IsExponent exponent ∧
    cs = whole ++ (fraction ++ exponent)

/-- A name, a number or a symbol. -/
def IsWord (cs : List Char) : Prop :=
  isName cs = true ∨ IsNumber cs ∨ ∃ s ∈ symbols, s.toList = cs

/-- The characters between the quotes of a string, and the string that they denote. A quote of the
same kind stands among them only in an escape. -/
inductive Unquotes (quote : Char) : List Char → List Char → Prop where
  /-- Nothing is left. -/
  | nil : Unquotes quote [] []
  /-- A character stands for itself. -/
  | plain {c : Char} {body text : List Char} (hquote : c ≠ quote) (hescape : c ≠ '\\')
      (tail : Unquotes quote body text) : Unquotes quote (c :: body) (c :: text)
  /-- A character after a backslash stands for another one. -/
  | escape {e d : Char} {body text : List Char} (hd : unescape? e = some d)
      (tail : Unquotes quote body text) : Unquotes quote ('\\' :: e :: body) (d :: text)

end Lexeme

/-- A terminal is spelled by these characters. -/
def Terminal.SpelledAs (t : Terminal) (lexeme : List Char) : Prop :=
  match t.kind with
  | .identifier => isName lexeme = true ∧ t.text.toList = lexeme
  | .number => Lexeme.IsNumber lexeme ∧ t.text.toList = lexeme
  | .symbol => t.text ∈ Lexeme.symbols ∧ t.text.toList = lexeme
  | .string => ∃ quote body, (quote = '"' ∨ quote = '\'') ∧ lexeme = quote :: (body ++ [quote]) ∧
      Lexeme.Unquotes quote body t.text.toList
  | .eof => False

namespace Lexeme

/-! ## Runs of digits -/

variable {cs ds rest : List Char}

theorem takeWhile_digits (h : IsDigits ds) (rest : List Char) :
    (ds ++ rest).takeWhile Char.isDigit = ds ++ rest.takeWhile Char.isDigit :=
  List.takeWhile_append_of_pos h.2

theorem dropWhile_digits (h : IsDigits ds) (rest : List Char) :
    (ds ++ rest).dropWhile Char.isDigit = rest.dropWhile Char.isDigit :=
  List.dropWhile_append_of_pos h.2

theorem digits_end {c : Char} (hc : c.isDigit = false) (cs : List Char) :
    (c :: cs).takeWhile Char.isDigit = [] ∧ (c :: cs).dropWhile Char.isDigit = c :: cs := by
  simp [hc]

theorem isDigits_takeWhile (h : (cs.takeWhile Char.isDigit).isEmpty = false) :
    IsDigits (cs.takeWhile Char.isDigit) :=
  ⟨List.isEmpty_eq_false_iff.1 h, fun _ hc ↦ List.mem_takeWhile_imp hc⟩

theorem IsExponent.isDigit_head {c : Char} (h : IsExponent (c :: cs)) : c.isDigit = false := by
  rcases h with h | ⟨d, sign, ds, hd, -, -, h⟩
  · cases h
  · obtain ⟨rfl, -⟩ := List.cons.inj h
    rcases hd with rfl | rfl <;> rfl

theorem IsExponent.ne_point {c : Char} (h : IsExponent (c :: cs)) : c ≠ '.' := by
  rcases h with h | ⟨d, sign, ds, hd, -, -, h⟩
  · cases h
  · obtain ⟨rfl, -⟩ := List.cons.inj h
    rcases hd with rfl | rfl <;> decide

/-! ## The parts of a number are numbers -/

theorem isFraction_splitFraction (cs : List Char) : IsFraction (splitFraction cs).1 := by
  rw [splitFraction.eq_def]
  split
  · next ds =>
    by_cases h : (ds.takeWhile Char.isDigit).isEmpty = true
    · exact .inl (by simp only [h, if_true])
    · rw [Bool.not_eq_true] at h
      exact .inr ⟨_, isDigits_takeWhile h, by simp [h]⟩
  · exact .inl rfl

theorem splitSign_mem (cs : List Char) : (splitSign cs).1 ∈ [[], ['+'], ['-']] := by
  rw [splitSign.eq_def]
  split <;> simp

theorem isExponent_splitExponent (cs : List Char) : IsExponent (splitExponent cs).1 := by
  cases cs with
  | nil => exact .inl rfl
  | cons c cs =>
    rw [splitExponent]
    dsimp only
    split
    · next h =>
      have hdigits := isDigits_takeWhile (Bool.eq_false_of_not_eq_true h.2)
      exact .inr ⟨c, _, _, h.1, splitSign_mem cs, hdigits, rfl⟩
    · exact .inl rfl

theorem isNumber_splitNumber {c : Char} (hc : c.isDigit = true) (cs : List Char) :
    IsNumber (splitNumber (c :: cs)).1 := by
  refine ⟨_, _, _, ?_, isFraction_splitFraction _, isExponent_splitExponent _,
    List.append_assoc _ _ _⟩
  exact isDigits_takeWhile (by simp [hc])

/-! ## No number is longer -/

theorem length_le_splitExponent (h : IsExponent cs) (rest : List Char) :
    cs.length ≤ (splitExponent (cs ++ rest)).1.length := by
  rcases h with rfl | ⟨c, sign, ds, hc, hsign, hds, rfl⟩
  · exact Nat.zero_le _
  -- the sign that is split off is the one of the pattern, since a digit comes after that
  have hsplit : splitSign (sign ++ (ds ++ rest)) = (sign, ds ++ rest) := by
    simp only [List.mem_cons, List.not_mem_nil, or_false] at hsign
    rcases hsign with rfl | rfl | rfl
    · obtain ⟨d, ds, rfl⟩ := List.exists_cons_of_ne_nil hds.1
      have hdigit := hds.2 d List.mem_cons_self
      have hplus : d ≠ '+' := by
        rintro rfl
        exact absurd hdigit (by decide)
      have hminus : d ≠ '-' := by
        rintro rfl
        exact absurd hdigit (by decide)
      simp [splitSign, hplus, hminus]
    · rfl
    · rfl
  have hrun := takeWhile_digits hds rest
  have hne : ¬ (ds ++ rest.takeWhile Char.isDigit).isEmpty = true := by simp [hds.1]
  rw [List.cons_append, List.append_assoc, splitExponent, hsplit]
  dsimp only
  rw [hrun, if_pos ⟨hc, hne⟩]
  simp only [List.length_cons, List.length_append]
  omega

theorem length_le_splitFraction {fraction exponent : List Char} (h : IsFraction fraction)
    (h' : IsExponent exponent) (rest : List Char) :
    let (fraction', rest') := splitFraction (fraction ++ (exponent ++ rest))
    (fraction ++ exponent).length ≤ (fraction' ++ (splitExponent rest').1).length := by
  rcases h with rfl | ⟨ds, hds, rfl⟩
  · cases exponent with
    | nil => exact Nat.zero_le _
    | cons c cs =>
      have hsplit : splitFraction (c :: cs ++ rest) = ([], c :: cs ++ rest) := by
        simp [splitFraction, h'.ne_point]
      rw [List.nil_append, List.nil_append, hsplit]
      exact length_le_splitExponent h' rest
  · have hne : ¬ (ds ++ (exponent ++ rest).takeWhile Char.isDigit).isEmpty = true := by
      simp [hds.1]
    rw [List.cons_append, splitFraction, takeWhile_digits hds, dropWhile_digits hds]
    dsimp only
    rw [if_neg hne]
    cases exponent with
    | nil =>
      simp only [List.append_nil, List.cons_append, List.length_cons, List.length_append]
      omega
    | cons c cs =>
      obtain ⟨hrun, hrest⟩ : (c :: cs ++ rest).takeWhile Char.isDigit = [] ∧
          (c :: cs ++ rest).dropWhile Char.isDigit = c :: cs ++ rest :=
        digits_end h'.isDigit_head _
      rw [hrun, hrest, List.append_nil, List.length_append, List.length_append]
      exact Nat.add_le_add_left (length_le_splitExponent h' rest) _

/-- No longer number begins where one is split off. -/
theorem length_le_splitNumber (h : IsNumber cs) (rest : List Char) :
    cs.length ≤ (splitNumber (cs ++ rest)).1.length := by
  obtain ⟨whole, fraction, exponent, hwhole, hfraction, hexponent, rfl⟩ := h
  have hrun : (fraction ++ exponent = []) ∨
      (fraction ++ (exponent ++ rest)).takeWhile Char.isDigit = [] ∧
        (fraction ++ (exponent ++ rest)).dropWhile Char.isDigit =
          fraction ++ (exponent ++ rest) := by
    rcases hfraction with rfl | ⟨ds, -, rfl⟩
    · cases exponent with
      | nil => exact .inl rfl
      | cons c cs => exact .inr (digits_end hexponent.isDigit_head _)
    · exact .inr (digits_end rfl _)
  rw [List.append_assoc, List.append_assoc, splitNumber, takeWhile_digits hwhole,
    dropWhile_digits hwhole]
  dsimp only
  rcases hrun with hnil | ⟨hrun, hrest⟩
  · rw [hnil, List.append_nil]
    simp only [List.length_append]
    omega
  · have hlen := length_le_splitFraction hfraction hexponent rest
    rw [hrun, hrest, List.append_nil]
    simp only [List.length_append] at hlen ⊢
    omega

theorem IsNumber.isDigit_head {c : Char} (h : IsNumber (c :: cs)) : c.isDigit = true := by
  obtain ⟨whole, fraction, exponent, hwhole, -, -, heq⟩ := h
  obtain ⟨d, ds, rfl⟩ := List.exists_cons_of_ne_nil hwhole.1
  obtain ⟨rfl, -⟩ := List.cons.inj heq
  exact hwhole.2 c List.mem_cons_self

theorem IsNumber.ne_nil (h : IsNumber cs) : cs ≠ [] := by
  obtain ⟨whole, fraction, exponent, hwhole, -, -, rfl⟩ := h
  exact List.append_ne_nil_of_left_ne_nil hwhole.1 _

/-- The longest number with which a text begins is the one that is split off. -/
theorem splitNumber_of_longest (h : IsNumber cs)
    (hlongest : ∀ w, IsNumber w → w <+: cs ++ rest → w.length ≤ cs.length) :
    splitNumber (cs ++ rest) = (cs, rest) := by
  obtain ⟨c, ds, rfl⟩ := List.exists_cons_of_ne_nil h.ne_nil
  have hsplit := append_splitNumber ((c :: ds) ++ rest)
  have hnumber : IsNumber (splitNumber ((c :: ds) ++ rest)).1 :=
    isNumber_splitNumber h.isDigit_head (ds ++ rest)
  have hle := hlongest _ hnumber ⟨_, hsplit⟩
  have hbegins := List.prefix_of_prefix_length_le ⟨_, hsplit⟩ (List.prefix_append _ rest) hle
  have hfront := hbegins.eq_of_length_le (length_le_splitNumber h rest)
  rw [hfront] at hsplit
  exact Prod.ext hfront (List.append_cancel_left hsplit)

theorem splitNumber_of_isNumber (h : IsNumber cs) : splitNumber cs = (cs, []) := by
  have hsplit : splitNumber (cs ++ []) = (cs, []) :=
    splitNumber_of_longest h fun w _ hw ↦ by simpa using hw.length_le
  rwa [List.append_nil] at hsplit

/-! ## No symbol is longer -/

/-- No symbol begins one that comes after it. -/
theorem pairwise_symbols :
    symbols.Pairwise fun s s' ↦ s.toList.isPrefixOf s'.toList = false := by
  decide

theorem length_le_symbol? {s s' : String} (h : symbol? cs = some s) (hs' : s' ∈ symbols)
    (hfront : s'.toList <+: cs) : s'.toList.length ≤ s.toList.length := by
  obtain ⟨hs, before, after, hsymbols, hbefore⟩ := List.find?_eq_some_iff_append.1 h
  rw [List.isPrefixOf_iff_prefix] at hs
  have hpairwise := pairwise_symbols
  rw [hsymbols, List.pairwise_append, List.pairwise_cons] at hpairwise
  rw [hsymbols] at hs'
  rcases List.mem_append.1 hs' with hmem | hmem
  -- a symbol before the one that is found is no prefix of the text
  · have hnot := hbefore s' hmem
    rw [Bool.not_eq_true', ← Bool.not_eq_true, List.isPrefixOf_iff_prefix] at hnot
    exact absurd hfront hnot
  rcases List.mem_cons.1 hmem with rfl | hmem
  · exact Nat.le_refl _
  have hnot := hpairwise.2.1.1 s' hmem
  rw [← Bool.not_eq_true, List.isPrefixOf_iff_prefix] at hnot
  rcases List.prefix_or_prefix_of_prefix hfront hs with hle | hle
  · exact hle.length_le
  · exact absurd hle hnot

theorem isNameChar_of_isName {w : List Char} (h : isName w = true) :
    ∀ c ∈ w, isNameChar c = true := by
  cases w with
  | nil => exact nofun
  | cons c ds =>
    rw [isName, Bool.and_eq_true] at h
    exact List.forall_mem_cons.2 ⟨isNameChar_of_isNameStart h.1, List.all_eq_true.1 h.2⟩

/-! ## First characters -/

theorem exists_head_of_mem_symbols {s : String} (hs : s ∈ symbols) : ∃ c ds, s.toList = c :: ds ∧
    ¬ (c = '"' ∨ c = '\'' ∨ isNameStart c = true ∨ c.isDigit = true) := by
  have hall : ∀ s ∈ symbols, s.toList.head?.any (fun c ↦
      !(c = '"' ∨ c = '\'' ∨ isNameStart c ∨ c.isDigit)) = true := by decide
  have hfirst := hall s hs
  cases hcs : s.toList with
  | nil => simp [hcs] at hfirst
  | cons c ds =>
    rw [hcs, List.head?_cons, Option.any_some, Bool.not_eq_true', decide_eq_false_iff_not]
      at hfirst
    exact ⟨c, ds, rfl, hfirst⟩

/-- The first character of a word tells of which kind the word is. -/
theorem IsWord.exists_head {w : List Char} (h : IsWord w) : ∃ c ds, w = c :: ds ∧
    ((isNameStart c = true ∧ isName w = true) ∨ (c.isDigit = true ∧ IsNumber w) ∨
      (¬ (c = '"' ∨ c = '\'' ∨ isNameStart c = true ∨ c.isDigit = true) ∧
        ∃ s ∈ symbols, s.toList = w)) := by
  rcases h with h | h | ⟨s, hs, rfl⟩
  · cases w with
    | nil => cases h
    | cons c ds =>
      have hstart := h
      rw [isName, Bool.and_eq_true] at hstart
      exact ⟨c, ds, rfl, .inl ⟨hstart.1, h⟩⟩
  · have hnumber := h
    obtain ⟨whole, fraction, exponent, hwhole, -, -, rfl⟩ := h
    obtain ⟨c, ds, rfl⟩ := List.exists_cons_of_ne_nil hwhole.1
    exact ⟨c, _, rfl, .inr (.inl ⟨hwhole.2 c List.mem_cons_self, hnumber⟩)⟩
  · obtain ⟨c, ds, hcs, hfirst⟩ := exists_head_of_mem_symbols hs
    exact ⟨c, ds, hcs, .inr (.inr ⟨hfirst, s, hs, rfl⟩)⟩

theorem of_cut_eq_token {text spelling : List Char} {kind : TokenKind}
    (h : cut cs = .token kind text spelling rest) (hkind : kind ≠ .eof) : ∃ c ds, cs = c :: ds ∧
      ((kind = .string ∧ (c = '"' ∨ c = '\'') ∧
          ∃ tail, readBody c ds = .closed text tail rest ∧ spelling = c :: tail) ∨
        (kind = .identifier ∧ isNameStart c = true ∧ text = spelling ∧
          spelling = cs.takeWhile isNameChar) ∨
        (kind = .number ∧ c.isDigit = true ∧ text = spelling ∧ spelling = (splitNumber cs).1) ∨
        (kind = .symbol ∧ ¬ (c = '"' ∨ c = '\'' ∨ isNameStart c = true ∨ c.isDigit = true) ∧
          ∃ s, symbol? cs = some s ∧ text = s.toList ∧ spelling = s.toList)) := by
  cases cs with
  | nil => exact absurd rfl (ne_nil_of_cut h hkind)
  | cons c ds =>
    refine ⟨c, ds, rfl, ?_⟩
    rw [cut] at h
    by_cases hquote : c = '"' ∨ c = '\''
    · rw [if_pos hquote] at h
      split at h
      · next hbody =>
        cases h
        exact .inl ⟨rfl, hquote, _, hbody, rfl⟩
      · cases h
      · cases h
    by_cases hname : isNameStart c = true
    · rw [if_neg hquote, if_pos hname] at h
      cases h
      exact .inr (.inl ⟨rfl, hname, rfl, rfl⟩)
    by_cases hdigit : c.isDigit = true
    · rw [if_neg hquote, if_neg hname, if_pos hdigit] at h
      dsimp only at h
      split at h
      · cases h
        exact .inr (.inr (.inl ⟨rfl, hdigit, rfl, rfl⟩))
      · cases h
    · rw [if_neg hquote, if_neg hname, if_neg hdigit] at h
      split at h
      · next s hs =>
        cases h
        refine .inr (.inr (.inr ⟨rfl, ?_, s, hs, rfl, rfl⟩))
        rintro (hc | hc | hc | hc)
        · exact hquote (.inl hc)
        · exact hquote (.inr hc)
        · exact hname hc
        · exact hdigit hc
      · cases h

/-! ## No word is longer -/

/-- No name, number or symbol that is longer begins where a piece is cut off. -/
theorem length_le_of_cut {text spelling w : List Char} {kind : TokenKind}
    (h : cut cs = .token kind text spelling rest) (hkind : kind ≠ .eof) (hw : IsWord w)
    (hfront : w <+: cs) : w.length ≤ spelling.length := by
  obtain ⟨c', ds', rfl, hcut⟩ := of_cut_eq_token h hkind
  obtain ⟨c, ds, rfl, hword⟩ := hw.exists_head
  obtain ⟨rfl, -⟩ := List.cons_prefix_cons.1 hfront
  -- the word begins with the same character, so it is of the same kind as the piece
  rcases hcut with ⟨-, hc, -⟩ | ⟨-, hc, -, rfl⟩ | ⟨-, hc, -, rfl⟩ | ⟨-, hc, s, hs, -, rfl⟩
  · have hnot : isNameStart c = false ∧ c.isDigit = false := by rcases hc with rfl | rfl <;> decide
    rcases hword with ⟨hstart, -⟩ | ⟨hdigit, -⟩ | ⟨hother, -⟩
    · simp [hnot.1] at hstart
    · simp [hnot.2] at hdigit
    · exact (hother (hc.elim .inl (.inr ∘ .inl))).elim
  · rcases hword with ⟨-, hname⟩ | ⟨hdigit, -⟩ | ⟨hother, -⟩
    · obtain ⟨rest', hrest⟩ := hfront
      rw [← hrest, List.takeWhile_append_of_pos (isNameChar_of_isName hname), List.length_append]
      exact Nat.le_add_right _ _
    · simp [isNameStart_of_isDigit hdigit] at hc
    · exact (hother (.inr (.inr (.inl hc)))).elim
  · rcases hword with ⟨hstart, -⟩ | ⟨-, hnumber⟩ | ⟨hother, -⟩
    · simp [isNameStart_of_isDigit hc] at hstart
    · obtain ⟨rest', hrest⟩ := hfront
      rw [← hrest]
      exact length_le_splitNumber hnumber rest'
    · exact (hother (.inr (.inr (.inr hc)))).elim
  · rcases hword with ⟨hstart, -⟩ | ⟨hdigit, -⟩ | ⟨-, s', hs', heq⟩
    · exact (hc (.inr (.inr (.inl hstart)))).elim
    · exact (hc (.inr (.inr (.inr hdigit)))).elim
    · rw [← heq] at hfront ⊢
      exact length_le_symbol? hs hs' hfront

/-! ## Spellings -/

theorem unquotes_of_readBody {quote : Char} {cs text spelling rest : List Char}
    (h : readBody quote cs = .closed text spelling rest) :
    ∃ body, spelling = body ++ [quote] ∧ Unquotes quote body text := by
  fun_induction readBody quote cs generalizing text spelling rest with
  | case1 | case3 | case5 => cases h
  | case2 cs =>
    cases h
    exact ⟨[], rfl, .nil⟩
  | case4 e cs d hd _ ih =>
    obtain ⟨text', spelling', hb, rfl, rfl⟩ := Body.of_prepend_eq_closed h
    obtain ⟨body, rfl, hbody⟩ := ih hb
    exact ⟨'\\' :: e :: body, rfl, .escape hd hbody⟩
  | case6 c cs hquote hescape ih =>
    obtain ⟨text', spelling', hb, rfl, rfl⟩ := Body.of_prepend_eq_closed h
    obtain ⟨body, rfl, hbody⟩ := ih hb
    exact ⟨c :: body, rfl, .plain hquote hescape hbody⟩

/-- A piece that is cut off is spelled as its token prescribes. -/
theorem spelledAs_of_cut {text spelling : List Char} {kind : TokenKind}
    (h : cut cs = .token kind text spelling rest) (hkind : kind ≠ .eof) :
    Terminal.SpelledAs ⟨kind, String.ofList text⟩ spelling := by
  obtain ⟨c, ds, rfl, hcut⟩ := of_cut_eq_token h hkind
  rcases hcut with ⟨rfl, hc, tail, hbody, rfl⟩ | ⟨rfl, hc, rfl, rfl⟩ | ⟨rfl, hc, rfl, rfl⟩ |
    ⟨rfl, -, s, hs, rfl, rfl⟩
  · obtain ⟨body, rfl, hbody⟩ := unquotes_of_readBody hbody
    exact ⟨c, body, hc, rfl, by rwa [String.toList_ofList]⟩
  · refine ⟨?_, String.toList_ofList⟩
    rw [List.takeWhile_cons, if_pos (isNameChar_of_isNameStart hc), isName, hc, Bool.true_and]
    exact List.all_takeWhile
  · exact ⟨isNumber_splitNumber hc ds, String.toList_ofList⟩
  · refine ⟨?_, String.toList_ofList⟩
    rw [String.ofList_toList]
    exact List.mem_of_find?_eq_some hs

end Lexeme

end TemplateExpr
