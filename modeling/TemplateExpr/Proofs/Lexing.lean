import TemplateExpr.Proofs.Derivation
import TemplateExpr.Source

/-!
# Cutting a text into terminals

`Lexes cs ts` says that a text is blanks and lexemes, up to its end, and that `ts` are the terminals
of the lexemes. A text that can be cut is cut in one way only (`Lexes.unique`), and it is exactly a
text whose source has no fault (`Lexes.of_scan`, `Lexes.exists_scan_eq`).

## Without places

Places have no part in it: whether a text can be cut, and into what, does not depend on where it
stands, so texts can be put together (`Lexes.append`). The tokens of a source have their places from
where the source begins, and they come back only where a text is tied to its source.

## Breaks

What has to be shown to put texts together is that no lexeme merges with what comes after it. A text
may be followed by another one that begins with a break: a blank, a delimiter or one of the marks of
a choice. None of these is found inside a name, a number or, after its first character, a symbol,
and a string knows where it ends.

Symbols need less. One of them goes on only with a character that some symbol has after its first
one (`Lexeme.joins`), so a name may follow a symbol with nothing between them.
-/

namespace TemplateExpr

/-! ## Breaks -/

namespace Text

/-- Whether a character goes on with no lexeme but a string. -/
def isBreak (c : Char) : Bool := isBlank c || c ∈ ['(', ')', '[', ']', ',', '?', ':']

def Breaks (cs : List Char) : Prop := ∀ c ∈ cs.head?, isBreak c = true

theorem breaks_cons {c : Char} (h : isBreak c = true) (cs : List Char) : Breaks (c :: cs) := by
  intro d hd
  rw [List.head?_cons] at hd
  exact Option.some.inj hd ▸ h

theorem toNat_of_isNameChar {c : Char} (h : isNameChar c = true) :
    48 ≤ c.toNat ∧ c.toNat ≤ 122 := by
  simp only [isNameChar, Char.isAlphanum, Char.isAlpha, Char.isUpper, Char.isLower, Char.isDigit,
    Bool.or_eq_true, Bool.and_eq_true, decide_eq_true_eq, UInt32.le_iff_toNat_le, ge_iff_le] at h
  rcases h with ((h | h) | h) | rfl
  · exact ⟨Nat.le_trans (by decide) h.1, Nat.le_trans h.2 (by decide)⟩
  · exact ⟨Nat.le_trans (by decide) h.1, Nat.le_trans h.2 (by decide)⟩
  · exact ⟨Nat.le_trans (by decide) h.1, Nat.le_trans h.2 (by decide)⟩
  · decide

theorem toNat_of_isBlank {c : Char} (h : isBlank c = true) : c.toNat ≤ 32 ∨ 133 ≤ c.toNat := by
  simp only [isBlank, Bool.or_eq_true, Bool.and_eq_true, decide_eq_true_eq, beq_iff_eq] at h
  omega

theorem isNameChar_of_isBlank {c : Char} (h : isBlank c = true) : isNameChar c = false := by
  cases hc : isNameChar c with
  | false => rfl
  | true =>
    have hname := toNat_of_isNameChar hc
    have hblank := toNat_of_isBlank h
    omega

theorem isBlank_of_isNameChar {c : Char} (h : isNameChar c = true) : isBlank c = false := by
  refine Bool.eq_false_iff.2 fun hblank ↦ ?_
  rw [isNameChar_of_isBlank hblank] at h
  cases h

theorem isNameChar_of_isBreak {c : Char} (h : isBreak c = true) : isNameChar c = false := by
  rw [isBreak, Bool.or_eq_true, decide_eq_true_eq] at h
  rcases h with h | h
  · exact isNameChar_of_isBlank h
  · simp only [List.mem_cons, List.not_mem_nil, or_false] at h
    rcases h with rfl | rfl | rfl | rfl | rfl | rfl | rfl <;> rfl

theorem isNameChar_of_isNameStart {c : Char} (h : isNameStart c = true) :
    isNameChar c = true := by
  rw [isNameStart, Bool.or_eq_true] at h
  rw [isNameChar, Char.isAlphanum, Bool.or_eq_true, Bool.or_eq_true]
  exact h.imp_left Or.inl

theorem isNameChar_of_isDigit {c : Char} (h : c.isDigit = true) : isNameChar c = true := by
  rw [isNameChar, Char.isAlphanum, h, Bool.or_true, Bool.true_or]

theorem isDigit_of_isBreak {c : Char} (h : isBreak c = true) : c.isDigit = false := by
  cases hc : c.isDigit with
  | false => rfl
  | true => exact absurd (isNameChar_of_isDigit hc) (by simp [isNameChar_of_isBreak h])

variable {p : Char → Bool} {ds : List Char}

/-! ## Runs of characters -/

theorem takeWhile_append_of_head? (h : ∀ c ∈ ds.head?, p c = false) (cs : List Char) :
    (cs ++ ds).takeWhile p = cs.takeWhile p := by
  induction cs with
  | nil =>
    cases ds with
    | nil => rfl
    | cons d ds => simp [h d rfl]
  | cons c cs ih => rw [List.cons_append, List.takeWhile_cons, List.takeWhile_cons, ih]

theorem dropWhile_append_of_head? (h : ∀ c ∈ ds.head?, p c = false) (cs : List Char) :
    (cs ++ ds).dropWhile p = cs.dropWhile p ++ ds := by
  induction cs with
  | nil =>
    cases ds with
    | nil => rfl
    | cons d ds => simp [h d rfl]
  | cons c cs ih =>
    rw [List.cons_append, List.dropWhile_cons, List.dropWhile_cons]
    split
    · exact ih
    · rfl

theorem Breaks.isDigit (h : Breaks ds) : ∀ c ∈ ds.head?, c.isDigit = false :=
  fun c hc ↦ isDigit_of_isBreak (h c hc)

theorem Breaks.isNameChar (h : Breaks ds) : ∀ c ∈ ds.head?, isNameChar c = false :=
  fun c hc ↦ isNameChar_of_isBreak (h c hc)

end Text

open Text

/-! ## A lexeme and the text after it -/

namespace Lexeme

theorem cut_eq_eof {cs text spelling rest : List Char}
    (h : cut cs = .token .eof text spelling rest) : cs = [] := by
  cases cs with
  | nil => rfl
  | cons c cs =>
    rw [cut] at h
    split at h
    · split at h <;> cases h
    split at h
    · cases h
    split at h
    · dsimp only at h
      split at h <;> cases h
    split at h <;> cases h

theorem ne_nil_of_cut {cs text spelling rest : List Char} {kind : TokenKind}
    (h : cut cs = .token kind text spelling rest) (hkind : kind ≠ .eof) : cs ≠ [] := by
  rintro rfl
  rw [cut, Cut.token.injEq] at h
  exact hkind h.1.symm

/-! ## Strings -/

theorem readBody_quote (quote : Char) (cs : List Char) :
    readBody quote (quote :: cs) = .closed [] [quote] cs := by
  rw [readBody.eq_def]
  exact if_pos rfl

theorem readBody_escape {quote e d : Char} (h : '\\' ≠ quote) (hd : unescape? e = some d)
    (cs : List Char) :
    readBody quote ('\\' :: e :: cs) = (readBody quote cs).prepend d ['\\', e] := by
  rw [readBody.eq_def]
  simp only [if_neg h, if_pos, hd]

theorem readBody_other {quote c : Char} (h : c ≠ quote) (h' : c ≠ '\\') (cs : List Char) :
    readBody quote (c :: cs) = (readBody quote cs).prepend c [c] := by
  rw [readBody.eq_def]
  simp only [if_neg h, if_neg h']

theorem Body.of_prepend_eq_closed {b : Body} {c : Char} {spelled text spelling rest : List Char}
    (h : b.prepend c spelled = .closed text spelling rest) : ∃ text' spelling',
      b = .closed text' spelling' rest ∧ text = c :: text' ∧ spelling = spelled ++ spelling' := by
  cases b with
  | closed text' spelling' rest' =>
    simp only [Body.prepend, Body.closed.injEq] at h
    obtain ⟨rfl, rfl, rfl⟩ := h
    exact ⟨text', spelling', rfl, rfl, rfl⟩
  | badEscape | unclosed => cases h

theorem readBody_append {quote : Char} {cs text spelling rest : List Char}
    (h : readBody quote cs = .closed text spelling rest) (ds : List Char) :
    readBody quote (cs ++ ds) = .closed text spelling (rest ++ ds) := by
  fun_induction readBody quote cs generalizing text spelling rest with
  | case1 => cases h
  | case2 cs =>
    simp only [Body.closed.injEq] at h
    obtain ⟨rfl, rfl, rfl⟩ := h
    rw [List.cons_append, readBody_quote]
  | case3 => cases h
  | case4 e cs d hd hne ih =>
    obtain ⟨text', spelling', hb, rfl, rfl⟩ := Body.of_prepend_eq_closed h
    rw [List.cons_append, List.cons_append, readBody_escape hne hd, ih hb, Body.prepend]
  | case5 => cases h
  | case6 c cs hne hne' ih =>
    obtain ⟨text', spelling', hb, rfl, rfl⟩ := Body.of_prepend_eq_closed h
    rw [List.cons_append, readBody_other hne hne', ih hb, Body.prepend]

/-! ## Numbers -/

theorem splitFraction_append (cs : List Char) {ds : List Char} (h : Breaks ds) :
    splitFraction (cs ++ ds) = ((splitFraction cs).1, (splitFraction cs).2 ++ ds) := by
  cases cs with
  | nil =>
    cases ds with
    | nil => rfl
    | cons d ds =>
      have hd : d ≠ '.' := by
        rintro rfl
        exact absurd (h _ rfl) (by decide)
      simp [splitFraction, hd]
  | cons c cs =>
    by_cases hc : c = '.'
    · subst hc
      rw [List.cons_append, splitFraction, splitFraction]
      simp only [takeWhile_append_of_head? h.isDigit, dropWhile_append_of_head? h.isDigit]
      split <;> rfl
    · simp [splitFraction, hc]

theorem splitSign_append (cs : List Char) {ds : List Char} (h : Breaks ds) :
    splitSign (cs ++ ds) = ((splitSign cs).1, (splitSign cs).2 ++ ds) := by
  cases cs with
  | nil =>
    cases ds with
    | nil => rfl
    | cons d ds =>
      have hplus : d ≠ '+' := by
        rintro rfl
        exact absurd (h _ rfl) (by decide)
      have hminus : d ≠ '-' := by
        rintro rfl
        exact absurd (h _ rfl) (by decide)
      simp [splitSign, hplus, hminus]
  | cons c cs =>
    by_cases hplus : c = '+'
    · subst hplus
      rfl
    by_cases hminus : c = '-'
    · subst hminus
      rfl
    · simp [splitSign, hplus, hminus]

theorem splitExponent_append (cs : List Char) {ds : List Char} (h : Breaks ds) :
    splitExponent (cs ++ ds) = ((splitExponent cs).1, (splitExponent cs).2 ++ ds) := by
  cases cs with
  | nil =>
    cases ds with
    | nil => rfl
    | cons d ds =>
      have hd : ¬ (d = 'e' ∨ d = 'E') := by
        rintro (rfl | rfl)
        · exact absurd (h _ rfl) (by decide)
        · exact absurd (h _ rfl) (by decide)
      simp [splitExponent, hd]
  | cons c cs =>
    rw [List.cons_append, splitExponent, splitExponent]
    simp only [splitSign_append cs h, takeWhile_append_of_head? h.isDigit,
      dropWhile_append_of_head? h.isDigit]
    split <;> rfl

theorem splitNumber_append (cs : List Char) {ds : List Char} (h : Breaks ds) :
    splitNumber (cs ++ ds) = ((splitNumber cs).1, (splitNumber cs).2 ++ ds) := by
  simp only [splitNumber, takeWhile_append_of_head? h.isDigit, dropWhile_append_of_head? h.isDigit,
    splitFraction_append _ h, splitExponent_append _ h]

/-! ## Symbols -/

/-- Whether a symbol can have a character after its first one. -/
def joins (c : Char) : Bool := c ∈ ['=', '&', '|']

theorem joins_of_mem_tail {s : String} (hs : s ∈ symbols) {c : Char} (hc : c ∈ s.toList.tail) :
    joins c = true := by
  have hall : ∀ s ∈ symbols, s.toList.tail.all joins = true := by decide
  exact List.all_eq_true.1 (hall s hs) c hc

theorem of_joins {c : Char} (h : joins c = true) : c = '=' ∨ c = '&' ∨ c = '|' := by
  rw [joins, decide_eq_true_eq] at h
  simpa using h

theorem joins_of_isBreak {c : Char} (h : isBreak c = true) : joins c = false := by
  cases hc : joins c with
  | false => rfl
  | true =>
    rcases of_joins hc with rfl | rfl | rfl
    all_goals exact absurd h (by decide)

theorem joins_of_isNameChar {c : Char} (h : isNameChar c = true) : joins c = false := by
  cases hc : joins c with
  | false => rfl
  | true =>
    rcases of_joins hc with rfl | rfl | rfl
    all_goals exact absurd h (by decide)

theorem joins_cons {c : Char} (h : joins c = false) (cs : List Char) :
    ∀ d ∈ (c :: cs).head?, joins d = false := by
  intro d hd
  cases hd
  exact h

/-- A symbol does not run on into a text that begins with a character it cannot go on with. -/
theorem isPrefixOf_append_of_joins {s : String} (hs : s ∈ symbols) {cs ds : List Char}
    (hcs : cs ≠ []) (hds : ∀ c ∈ ds.head?, joins c = false) :
    s.toList.isPrefixOf (cs ++ ds) = s.toList.isPrefixOf cs := by
  rw [Bool.eq_iff_iff, List.isPrefixOf_iff_prefix, List.isPrefixOf_iff_prefix]
  constructor
  · rintro ⟨ws, hws⟩
    rcases List.append_eq_append_iff.1 hws with ⟨es, rfl, -⟩ | ⟨es, hes, rfl⟩
    · exact List.prefix_append _ _
    · cases es with
      | nil =>
        have heq : s.toList = cs := hes.trans (List.append_nil cs)
        exact heq ▸ List.prefix_refl _
      | cons e es =>
        -- the symbol would have `e`, the first character of the text after `cs`, in it
        obtain ⟨c, cs, rfl⟩ := List.exists_cons_of_ne_nil hcs
        have htail : e ∈ s.toList.tail := by simp [hes]
        exact absurd (joins_of_mem_tail hs htail) (by simp [hds e rfl])
  · exact fun h ↦ h.trans (List.prefix_append _ _)

theorem symbol?_append {cs ds : List Char} (hcs : cs ≠ [])
    (hds : ∀ c ∈ ds.head?, joins c = false) : symbol? (cs ++ ds) = symbol? cs := by
  have hfind : ∀ ss : List String, (∀ s ∈ ss, s ∈ symbols) →
      ss.find? (·.toList.isPrefixOf (cs ++ ds)) = ss.find? (·.toList.isPrefixOf cs) := by
    intro ss hss
    induction ss with
    | nil => rfl
    | cons s ss ih =>
      rw [List.find?_cons, List.find?_cons,
        isPrefixOf_append_of_joins (hss s List.mem_cons_self) hcs hds,
        ih fun s hs ↦ hss s (List.mem_cons_of_mem _ hs)]
  exact hfind symbols fun _ hs ↦ hs

theorem joins_of_breaks {ds : List Char} (h : Breaks ds) : ∀ c ∈ ds.head?, joins c = false :=
  fun c hc ↦ joins_of_isBreak (h c hc)

theorem joins_of_isName {cs : List Char} (h : isName cs = true) (ds : List Char) :
    ∀ c ∈ (cs ++ ds).head?, joins c = false := by
  cases cs with
  | nil => cases h
  | cons c cs =>
    rw [isName, Bool.and_eq_true] at h
    exact joins_cons (joins_of_isNameChar (isNameChar_of_isNameStart h.1)) _

/-! ## Lexemes -/

/-- A lexeme stays as it is if the text after it is followed by a break. -/
theorem cut_append {cs text spelling rest ds : List Char} {kind : TokenKind}
    (h : cut cs = .token kind text spelling rest) (hkind : kind ≠ .eof) (hds : Breaks ds) :
    cut (cs ++ ds) = .token kind text spelling (rest ++ ds) := by
  cases cs with
  | nil => exact absurd rfl (ne_nil_of_cut h hkind)
  | cons c cs =>
    rw [List.cons_append]
    rw [cut] at h ⊢
    -- the first character decides what the lexeme is, and it is the same in both texts
    by_cases hquote : c = '"' ∨ c = '\''
    · rw [if_pos hquote] at h ⊢
      cases hbody : readBody c cs with
      | closed =>
        simp only [hbody, Cut.token.injEq] at h
        obtain ⟨rfl, rfl, rfl, rfl⟩ := h
        simp only [readBody_append hbody]
      | badEscape | unclosed => simp [hbody] at h
    rw [if_neg hquote] at h ⊢
    by_cases hname : isNameStart c = true
    · rw [if_pos hname] at h ⊢
      simp only [Cut.token.injEq] at h
      obtain ⟨rfl, rfl, rfl, rfl⟩ := h
      simp only [← List.cons_append, takeWhile_append_of_head? hds.isNameChar,
        dropWhile_append_of_head? hds.isNameChar]
    rw [if_neg hname] at h ⊢
    by_cases hdigit : c.isDigit = true
    · rw [if_pos hdigit] at h ⊢
      simp only [← List.cons_append, splitNumber_append _ hds] at h ⊢
      split at h
      · next hnumber =>
        simp only [Cut.token.injEq] at h
        obtain ⟨rfl, rfl, rfl, rfl⟩ := h
        rw [if_pos hnumber]
      · cases h
    rw [if_neg hdigit] at h ⊢
    rw [← List.cons_append, symbol?_append (List.cons_ne_nil _ _) (joins_of_breaks hds)]
    cases hsymbol : symbol? (c :: cs) with
    | none => simp [hsymbol] at h
    | some s =>
      simp only [hsymbol, Cut.token.injEq] at h
      obtain ⟨rfl, rfl, rfl, rfl⟩ := h
      -- the symbol was cut from the first text, so what is left of that is all before `ds`
      have hlen := congrArg List.length (append_drop_of_symbol? hsymbol)
      rw [List.length_append] at hlen
      simp only [List.drop_append_of_le_length (Nat.le.intro hlen)]

/-! ## Single lexemes -/

theorem head?_of_symbol? {c : Char} {cs : List Char} {s : String} (h : symbol? (c :: cs) = some s) :
    s.toList.head? = some c := by
  have happend := append_drop_of_symbol? h
  have hne : ∀ s ∈ symbols, s.toList ≠ [] := by decide
  obtain ⟨d, ds, hs⟩ := List.exists_cons_of_ne_nil (hne s (List.mem_of_find?_eq_some h))
  rw [hs, List.cons_append, List.cons.injEq] at happend
  rw [hs, List.head?_cons, happend.1]

/-- A lexeme begins where no blank stands. -/
theorem dropWhile_isBlank_of_cut {cs text spelling rest : List Char} {kind : TokenKind}
    (h : cut cs = .token kind text spelling rest) : cs.dropWhile isBlank = cs := by
  cases cs with
  | nil => rfl
  | cons c cs =>
    cases hc : isBlank c with
    | false => rw [List.dropWhile_cons, hc]; rfl
    | true =>
      have hname := isNameChar_of_isBlank hc
      -- a blank could only begin a symbol, and none of the symbols begins with one
      rw [cut, if_neg, if_neg, if_neg] at h
      · split at h
        · next s hs =>
          have hall : ∀ s ∈ symbols, s.toList.head?.any isBlank = false := by decide
          have := hall s (List.mem_of_find?_eq_some hs)
          rw [head?_of_symbol? hs, Option.any_some, hc] at this
          cases this
        · cases h
      · exact fun hdigit ↦ absurd (isNameChar_of_isDigit hdigit) (by simp [hname])
      · exact fun hstart ↦ absurd (isNameChar_of_isNameStart hstart) (by simp [hname])
      · rintro (rfl | rfl)
        · exact absurd hc (by decide)
        · exact absurd hc (by decide)

theorem cut_symbol {s : String} (hs : s ∈ symbols) {ds : List Char}
    (hds : ∀ c ∈ ds.head?, joins c = false) :
    cut (s.toList ++ ds) = .token .symbol s.toList s.toList ds := by
  have hall : ∀ s ∈ symbols, symbol? s.toList = some s ∧ s.toList.head?.any (fun c ↦
      !(c = '"' ∨ c = '\'' ∨ isNameStart c ∨ c.isDigit)) = true := by decide
  obtain ⟨hsymbol, hfirst⟩ := hall s hs
  have hne : s.toList ≠ [] := by
    intro hnil
    simp [hnil] at hfirst
  rw [← symbol?_append hne hds] at hsymbol
  obtain ⟨c, cs, hcs⟩ := List.exists_cons_of_ne_nil hne
  simp only [hcs, List.head?_cons, Option.any_some, Bool.not_eq_true', decide_eq_false_iff_not,
    not_or] at hfirst
  obtain ⟨hquote, hquote', hname, hdigit⟩ := hfirst
  rw [hcs, List.cons_append] at hsymbol ⊢
  rw [cut, if_neg (by simp [hquote, hquote']), if_neg hname, if_neg hdigit, hsymbol]
  dsimp only
  rw [hcs, ← List.cons_append, List.drop_left]

/-- A delimiter is a lexeme whatever follows it. -/
theorem cut_delimiter {s : String} (hs : s ∈ ["(", ")", "[", "]", ",", "?", ":"])
    (ds : List Char) : cut (s.toList ++ ds) = .token .symbol s.toList s.toList ds := by
  simp only [List.mem_cons, List.not_mem_nil, or_false] at hs
  rcases hs with rfl | rfl | rfl | rfl | rfl | rfl | rfl <;> rfl

theorem cut_name {cs : List Char} (h : isName cs = true) :
    cut cs = .token .identifier cs cs [] := by
  cases cs with
  | nil => cases h
  | cons c cs =>
    rw [isName, Bool.and_eq_true] at h
    have hquote : ¬ (c = '"' ∨ c = '\'') := by
      rintro (rfl | rfl)
      · exact absurd h.1 (by decide)
      · exact absurd h.1 (by decide)
    have hchars : ∀ d ∈ c :: cs, isNameChar d = true := by
      intro d hd
      rcases List.mem_cons.1 hd with rfl | hd
      · exact isNameChar_of_isNameStart h.1
      · exact List.all_eq_true.1 h.2 d hd
    rw [cut, if_neg hquote, if_pos h.1]
    simp only [List.takeWhile_eq_self_iff.2 hchars, List.dropWhile_eq_nil_iff.2 hchars]

end Lexeme

/-! ## Whole texts -/

/-- A text is cut into terminals, with blanks between and around them. -/
inductive Lexes : List Char → List Terminal → Prop where
  /-- Nothing but blanks is left. -/
  | blank {cs : List Char} (h : cs.dropWhile isBlank = []) : Lexes cs []
  /-- A lexeme comes after blanks. -/
  | piece {cs text spelling rest : List Char} {kind : TokenKind} {ts : List Terminal}
      (hcut : Lexeme.cut (cs.dropWhile isBlank) = .token kind text spelling rest)
      (hkind : kind ≠ .eof) (hrest : Lexes rest ts) :
      Lexes cs (⟨kind, String.ofList text⟩ :: ts)

namespace Lexes

variable {cs ds : List Char} {ts us : List Terminal}

/-- Blanks at the beginning of a text do not count. -/
theorem blanks_append (h : Lexes ds ts) (hcs : cs.dropWhile isBlank = []) :
    Lexes (cs ++ ds) ts := by
  have hdrop : (cs ++ ds).dropWhile isBlank = ds.dropWhile isBlank := by
    rw [List.dropWhile_append, hcs]
    rfl
  cases h with
  | blank h => exact .blank (hdrop ▸ h)
  | piece hcut hkind h => exact .piece (hdrop ▸ hcut) hkind h

/-- Texts can be put together at a break. -/
theorem append (h : Lexes cs ts) (hds : Breaks ds) (h' : Lexes ds us) :
    Lexes (cs ++ ds) (ts ++ us) := by
  induction h with
  | blank h => exact h'.blanks_append h
  | @piece cs text spelling rest kind ts hcut hkind _ ih =>
    have hne := Lexeme.ne_nil_of_cut hcut hkind
    have hdrop : (cs ++ ds).dropWhile isBlank = cs.dropWhile isBlank ++ ds := by
      rw [List.dropWhile_append, List.isEmpty_eq_false_iff.2 hne]
      rfl
    exact .piece (hdrop ▸ Lexeme.cut_append hcut hkind hds) hkind ih

/-- A text is cut in one way only. -/
theorem unique (h : Lexes cs ts) (h' : Lexes cs us) : ts = us := by
  induction h generalizing us with
  | blank h =>
    cases h' with
    | blank => rfl
    | piece hcut hkind => exact absurd h (Lexeme.ne_nil_of_cut hcut hkind)
  | piece hcut hkind _ ih =>
    cases h' with
    | blank h => exact absurd h (Lexeme.ne_nil_of_cut hcut hkind)
    | piece hcut' _ h' =>
      rw [hcut, Lexeme.Cut.token.injEq] at hcut'
      obtain ⟨rfl, rfl, -, rfl⟩ := hcut'
      rw [ih h']

/-! ## Texts made of lexemes -/

/-- A lexeme and a text after it. -/
theorem of_cut {text spelling rest : List Char} {kind : TokenKind}
    (hcut : Lexeme.cut cs = .token kind text spelling rest) (hkind : kind ≠ .eof)
    (h : Lexes rest ts) : Lexes cs (⟨kind, String.ofList text⟩ :: ts) :=
  .piece ((Lexeme.dropWhile_isBlank_of_cut hcut).symm ▸ hcut) hkind h

theorem nil : Lexes [] [] := .blank rfl

theorem blank_cons {c : Char} (hc : isBlank c = true) (h : Lexes cs ts) : Lexes (c :: cs) ts :=
  have hdrop : [c].dropWhile isBlank = [] := by rw [List.dropWhile_cons, hc]; rfl
  h.blanks_append hdrop

theorem symbol_append {s : String} (hs : s ∈ Lexeme.symbols)
    (hds : ∀ c ∈ ds.head?, Lexeme.joins c = false) (h : Lexes ds ts) :
    Lexes (s.toList ++ ds) (.symbol s :: ts) := by
  have hpiece := of_cut (Lexeme.cut_symbol hs hds) nofun h
  rwa [String.ofList_toList] at hpiece

theorem delimiter_append {s : String} (hs : s ∈ ["(", ")", "[", "]", ",", "?", ":"])
    (h : Lexes ds ts) : Lexes (s.toList ++ ds) (.symbol s :: ts) := by
  have hpiece := of_cut (Lexeme.cut_delimiter hs ds) nofun h
  rwa [String.ofList_toList] at hpiece

/-- A text in parentheses, and another one after it. -/
theorem parentheses (h : Lexes cs ts) (h' : Lexes ds us) :
    Lexes ('(' :: (cs ++ ')' :: ds)) (.symbol "(" :: (ts ++ .symbol ")" :: us)) :=
  delimiter_append (s := "(") (by decide)
    (h.append (breaks_cons rfl _) (delimiter_append (s := ")") (by decide) h'))

theorem brackets (h : Lexes cs ts) (h' : Lexes ds us) :
    Lexes ('[' :: (cs ++ ']' :: ds)) (.symbol "[" :: (ts ++ .symbol "]" :: us)) :=
  delimiter_append (s := "[") (by decide)
    (h.append (breaks_cons rfl _) (delimiter_append (s := "]") (by decide) h'))

/-- Texts with commas and blanks between them. -/
theorem intercalate {css : List (List Char)} {tss : List (List Terminal)} {bs : List Char}
    (h : List.Forall₂ Lexes css tss) (hbs : bs.dropWhile isBlank = []) :
    Lexes ((',' :: bs).intercalate css) ([Terminal.symbol ","].intercalate tss) := by
  induction h with
  | nil => exact nil
  | @cons cs ts css tss h htail ih =>
    cases htail with
    | nil => simpa using h
    | cons h' htail =>
      rw [List.intercalate_cons_cons, List.intercalate_cons_cons, List.append_assoc,
        List.append_assoc]
      have hcomma : "," ∈ ["(", ")", "[", "]", ",", "?", ":"] := by decide
      exact h.append (breaks_cons rfl _) (delimiter_append hcomma (ih.blanks_append hbs))

theorem name {s : String} (hs : isName s.toList = true) :
    Lexes s.toList [⟨.identifier, s⟩] := by
  have hpiece := of_cut (Lexeme.cut_name hs) nofun nil
  rwa [String.ofList_toList] at hpiece

end Lexes

/-! ## Terminals of a text -/

/-- What the text of a lexeme can be, if it is one of the given kind. -/
def Terminal.Lexical (t : Terminal) : Prop :=
  match t.kind with
  | .identifier => isName t.text.toList = true
  | .number => t.text.toList.head?.any Char.isDigit = true
  | .symbol => t.text ∈ Lexeme.symbols
  | .string => True
  | .eof => False

theorem Lexeme.lexical_of_cut {cs text spelling rest : List Char} {kind : TokenKind}
    (h : cut cs = .token kind text spelling rest) (hkind : kind ≠ .eof) :
    Terminal.Lexical ⟨kind, String.ofList text⟩ := by
  cases cs with
  | nil => exact absurd rfl (ne_nil_of_cut h hkind)
  | cons c cs =>
    rw [cut] at h
    split at h
    · split at h
      · cases h
        exact trivial
      · cases h
      · cases h
    split at h
    · next hname =>
      cases h
      rw [Terminal.Lexical, String.toList_ofList, List.takeWhile_cons,
        if_pos (isNameChar_of_isNameStart hname), isName, hname, Bool.true_and]
      exact List.all_takeWhile
    split at h
    · next hdigit =>
      dsimp only at h
      split at h
      · cases h
        rw [Terminal.Lexical, String.toList_ofList, splitNumber, List.takeWhile_cons,
          if_pos hdigit]
        exact hdigit
      · cases h
    split at h
    · next s hs =>
      cases h
      rw [String.ofList_toList]
      exact List.mem_of_find?_eq_some hs
    · cases h

/-- Every terminal of a text is a lexeme. -/
theorem Lexes.lexical {cs : List Char} {ts : List Terminal} (h : Lexes cs ts) :
    ∀ t ∈ ts, t.Lexical := by
  induction h with
  | blank => exact fun t ht ↦ absurd ht List.not_mem_nil
  | piece hcut hkind _ ih =>
    intro t ht
    rcases List.mem_cons.1 ht with rfl | ht
    · exact Lexeme.lexical_of_cut hcut hkind
    · exact ih t ht

/-! ## Sources -/

namespace Source

theorem piece_of_cut {s : Source} {text spelling rest : List Char} {kind : TokenKind}
    (h : Lexeme.cut s.rest = .token kind text spelling rest) :
    s.piece = (.ok ⟨kind, String.ofList text, s.position⟩, ⟨rest, s.position.after spelling⟩) := by
  rw [piece, h]

/-- A source begins with a token only if it can be cut there. -/
theorem cut_of_piece {s : Source} {t : Token} (h : s.piece.1 = .ok t) :
    ∃ text spelling, Lexeme.cut s.rest = .token t.kind text spelling s.piece.2.rest ∧
      t = ⟨t.kind, String.ofList text, s.position⟩ ∧
      s.piece.2.position = s.position.after spelling := by
  cases hcut : Lexeme.cut s.rest with
  | token kind text spelling rest =>
    rw [piece_of_cut hcut] at h ⊢
    cases h
    exact ⟨text, spelling, rfl, rfl, rfl⟩
  | fault fault before passed rest => simp [piece, hcut] at h

theorem eq_eof_of_piece {s : Source} {t : Token} (h : s.piece.1 = .ok t) (ht : t.isEof = true) :
    s.rest = [] ∧ t = Token.eof s.position := by
  obtain ⟨text, spelling, hcut, heq, -⟩ := cut_of_piece h
  have hkind : t.kind = .eof := by simpa [Token.isEof] using ht
  rw [hkind] at hcut heq
  have hnil := Lexeme.cut_eq_eof hcut
  rw [hnil, Lexeme.cut, Lexeme.Cut.token.injEq] at hcut
  obtain ⟨-, rfl, -⟩ := hcut
  exact ⟨hnil, heq⟩

/-! ## Tokens of a source -/

theorem scan_of_isEof {s : Source} {t : Token} (h : s.next.1 = .ok t) (ht : t.isEof = true) :
    s.scan = ([t], none) := by
  rw [scan]
  split
  · next h' => cases h.symm.trans h'
  · next h' =>
    cases h.symm.trans h'
    exact dif_pos ht

theorem scan_of_ok {s : Source} {t : Token} (h : s.next.1 = .ok t) (ht : t.isEof = false) :
    s.scan = (t :: s.next.2.scan.1, s.next.2.scan.2) := by
  rw [scan]
  split
  · next h' => cases h.symm.trans h'
  · next h' =>
    cases h.symm.trans h'
    exact dif_neg (by simp [ht])

theorem scan_of_error {s : Source} {e : LexError} (h : s.next.1 = .error e) :
    s.scan = ([], some e) := by
  rw [scan]
  split
  · next h' =>
    cases h.symm.trans h'
    rfl
  · next h' => cases h.symm.trans h'

theorem ofString_ofList (cs : List Char) :
    ofString (String.ofList cs) = ⟨cs, Position.start⟩ := by
  rw [ofString, String.toList_ofList]

variable {s : Source}

theorem next_eq_piece (hblank : ∀ c ∈ s.rest.head?, isBlank c = false) : s.next = s.piece := by
  have hskip : s.skipBlanks = s := by
    obtain ⟨cs, p⟩ := s
    cases cs with
    | nil => rfl
    | cons c cs =>
      have hc : isBlank c = false := hblank c rfl
      simp only [skipBlanks, List.dropWhile_cons, List.takeWhile_cons, hc, Bool.false_eq_true,
        if_false]
      rfl
  rw [next, hskip]

/-- A source that is one lexeme has the token of that lexeme. -/
theorem tokens_of_cut {kind : TokenKind} {text spelling : List Char}
    (h : Lexeme.cut s.rest = .token kind text spelling []) (hkind : kind ≠ .eof)
    (hblank : ∀ c ∈ s.rest.head?, isBlank c = false) :
    s.tokens = .ok [⟨kind, String.ofList text, s.position⟩,
      Token.eof (s.position.after spelling)] := by
  have hnext := (next_eq_piece hblank).trans (piece_of_cut h)
  have hend : scan ⟨[], s.position.after spelling⟩ =
      ([Token.eof (s.position.after spelling)], none) := scan_of_isEof rfl rfl
  rw [tokens, scan_of_ok (congrArg Prod.fst hnext) (by simpa [Token.isEof] using hkind), hnext,
    hend]

theorem tokens_of_fault {fault : LexFault} {before passed rest : List Char}
    (h : Lexeme.cut s.rest = .fault fault before passed rest)
    (hblank : ∀ c ∈ s.rest.head?, isBlank c = false) :
    s.tokens = .error ⟨fault, s.position.after before⟩ := by
  have hnext : s.next.1 = .error ⟨fault, s.position.after before⟩ := by
    rw [next_eq_piece hblank, piece, h]
  rw [tokens, scan_of_error hnext]

end Source

namespace Lexes

/-- The tokens of a source that has no fault come from its lexemes, and the end token is the last
of them. -/
theorem of_scan {s : Source} {ts : List Token} (h : s.scan = (ts, none)) :
    ∃ us p, ts = us ++ [Token.eof p] ∧ Lexes s.rest (us.map Token.terminal) := by
  fun_induction Source.scan s generalizing ts with
  | case1 => cases h
  | case2 s t ht heof =>
    cases h
    obtain ⟨hnil, rfl⟩ := Source.eq_eof_of_piece ht heof
    exact ⟨[], _, rfl, .blank hnil⟩
  | case3 s t ht heof _ ts error hscan ih =>
    cases h
    obtain ⟨us, p, rfl, hlexes⟩ := ih hscan
    obtain ⟨text, spelling, hcut, htoken, -⟩ := Source.cut_of_piece ht
    refine ⟨t :: us, p, rfl, ?_⟩
    have hterminal : t.terminal = ⟨t.kind, String.ofList text⟩ := by
      rw [Token.terminal, congrArg Token.text htoken]
    rw [List.map_cons, hterminal]
    exact .piece hcut (by simpa [Token.isEof] using heof) hlexes

/-- A text that can be cut has no fault, wherever it stands. -/
theorem exists_scan_eq {cs : List Char} {us : List Terminal} (h : Lexes cs us) (p : Position) :
    ∃ ts q, Source.scan ⟨cs, p⟩ = (ts ++ [Token.eof q], none) ∧ ts.map Token.terminal = us := by
  induction h generalizing p with
  | @blank cs h =>
    let q := p.after (cs.takeWhile isBlank)
    have hcut : Lexeme.cut (Source.skipBlanks ⟨cs, p⟩).rest = .token .eof [] [] [] := by
      rw [Source.skipBlanks, h, Lexeme.cut]
    have hnext : (Source.next ⟨cs, p⟩).1 = .ok (Token.eof q) := by
      rw [Source.next, Source.piece_of_cut hcut]
      rfl
    exact ⟨[], q, Source.scan_of_isEof hnext rfl, rfl⟩
  | @piece cs text spelling rest kind us hcut hkind _ ih =>
    let q := p.after (cs.takeWhile isBlank)
    have hnext : Source.next ⟨cs, p⟩ =
        (.ok ⟨kind, String.ofList text, q⟩, ⟨rest, q.after spelling⟩) :=
      Source.piece_of_cut hcut
    have heof : Token.isEof ⟨kind, String.ofList text, q⟩ = false := by
      simpa [Token.isEof] using hkind
    obtain ⟨ts, q', hscan, rfl⟩ := ih (q.after spelling)
    refine ⟨⟨kind, String.ofList text, q⟩ :: ts, q', ?_, rfl⟩
    rw [Source.scan_of_ok (congrArg Prod.fst hnext) heof, hnext, hscan]
    rfl

end Lexes

end TemplateExpr
