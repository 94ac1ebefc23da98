import TemplateExpr.Proofs.Composition
import TemplateExpr.Proofs.Listing
import TemplateExpr.Proofs.LongestMatch
import TemplateExpr.Proofs.Origin

/-!
# Plain names

The printer writes the function of a call without quotes if it is called by a plain name. That is
the right test: a text is a plain name exactly if it is one token, a name, and is read as a
variable, and exactly if it is read as what is called when an argument list follows
(`Expr.isPlainName_iff_read`).

## Nothing else can be called by its own text

A function that is called by a string has been spelled either as a plain name or as a string, and a
string is at least two characters shorter than its spelling, so its text and an empty argument list
have no room for it. Which of the two it was is a property that every rule of the grammar keeps
(`Expr.NamedBy`), with the strings of the text as what it depends on.

## Literals among the words

The words `true`, `false` and `null` are cut off as names but read as literals. Before an argument
list they are called as the literals that they are, so they are no plain names, and a function with
such a name is printed in quotes.
-/

namespace TemplateExpr

open Terminal Text

namespace Lexeme

/-! ## The length of spellings -/

theorem Unquotes.length_le {quote : Char} {body text : List Char} (h : Unquotes quote body text) :
    text.length ≤ body.length := by
  induction h with
  | nil => exact le_rfl
  | plain _ _ _ ih => exact Nat.succ_le_succ ih
  | escape _ _ ih => exact Nat.succ_le_succ (ih.trans (Nat.le_succ _))

end Lexeme

/-- Every terminal of a text is spelled somewhere in it. -/
theorem Lexes.exists_spelled {cs : List Char} {ts : List Terminal} (h : Lexes cs ts) :
    ∀ t ∈ ts, ∃ lexeme, lexeme <:+: cs ∧ t.SpelledAs lexeme := by
  induction h with
  | blank => exact fun t ht ↦ absurd ht List.not_mem_nil
  | @piece cs text spelling rest kind ts hcut hkind _ ih =>
    have hcs : spelling ++ rest <:+ cs := by
      have hchars : spelling ++ rest = cs.dropWhile isBlank := by
        rw [← Lexeme.chars_cut (cs.dropWhile isBlank), hcut]
        rfl
      exact hchars ▸ List.dropWhile_suffix _
    intro t ht
    rcases List.mem_cons.1 ht with rfl | ht
    · exact ⟨spelling, (List.prefix_append _ _).isInfix.trans hcs.isInfix,
        Lexeme.spelledAs_of_cut hcut hkind⟩
    · obtain ⟨lexeme, hlexeme, hspelled⟩ := ih t ht
      exact ⟨lexeme, hlexeme.trans ((List.suffix_append _ _).isInfix.trans hcs.isInfix), hspelled⟩

namespace Expr

/-! ## Functions that are called by name -/

/-- A variable has a plain name. A string is one of some strings, and a function that is called by a
string is called by a plain name or by one of them. -/
def NamedBy (P : String → Prop) : Expr → Prop
  | name n => isPlainName n = true
  | literal (.string s) => P s
  | call (literal (.string n)) _ => isPlainName n = true ∨ P n
  | _ => True

variable {P : String → Prop}

theorem namedBy_literal_of_ofNumber? {cs : List Char} {v : Literal}
    (h : Literal.ofNumber? cs = some v) : (literal v).NamedBy P := by
  cases v with
  | string s =>
    rw [Literal.ofNumber?] at h
    split at h <;> simp at h
  | _ => trivial

theorem namedBy_word {s : String} (h : isName s.toList = true) : (Grammar.word s).NamedBy P := by
  have hparsed : Parsed (Grammar.word s) := parsed_ofReading.word h
  rw [Grammar.word] at hparsed ⊢
  cases hv : Literal.ofKeyword? s with
  | none =>
    rw [hv] at hparsed
    exact hparsed
  | some v =>
    rw [Literal.ofKeyword?.eq_def] at hv
    split at hv <;> cases hv <;> trivial

theorem namedBy_call {f : Expr} (h : f.NamedBy P) (es : List Expr) :
    (call (Grammar.callee f) es).NamedBy P := by
  cases f with
  | name n => exact .inl h
  | literal v =>
    cases v with
    | string n => exact .inr h
    | _ => trivial
  | _ => trivial

theorem namedBy_keptByRules :
    KeptByRules (fun t ↦ t.Lexical ∧ (t.kind = .string → P t.text)) (NamedBy P) where
  number _ _ hv := namedBy_literal_of_ofNumber? hv
  string ht hkind := ht.2 hkind
  word {t} ht hkind := by
    have hname := ht.1
    rw [Terminal.Lexical, hkind] at hname
    exact namedBy_word hname
  unary _ _ _ := trivial
  binary _ _ _ _ _ := trivial
  ternary _ _ _ _ _ _ := trivial
  array _ := trivial
  call hf _ := namedBy_call hf _
  filter _ _ _ := trivial

/-! ## Before an empty argument list -/

theorem isPlainName_of_ofString {s : String} (h : ofString (s ++ "()") = .ok (call (string s) [])) :
    isPlainName s = true := by
  obtain ⟨ts, d, hlexes, -, hder⟩ := derives_of_ofString h
  have hnamed : isPlainName s = true ∨ ∃ t ∈ ts, t.kind = .string ∧ t.text = s :=
    (namedBy_keptByRules (P := fun n ↦ ∃ t ∈ ts, t.kind = .string ∧ t.text = n)).holds_of_derives
      hder fun t ht ↦ ⟨hlexes.lexical t ht, fun hkind ↦ ⟨t, ht, hkind, rfl⟩⟩
  refine hnamed.resolve_right ?_
  rintro ⟨t, ht, hkind, htext⟩
  obtain ⟨lexeme, hpart, hspelled⟩ := hlexes.exists_spelled t ht
  rw [Terminal.SpelledAs, hkind] at hspelled
  obtain ⟨quote, body, hquote, rfl, hbody⟩ := hspelled
  have hle := hbody.length_le
  rw [htext] at hle
  have hlength : (s ++ "()").toList.length ≤ (quote :: (body ++ [quote])).length := by
    rw [String.toList_append, List.length_append, List.length_cons, List.length_append]
    exact Nat.succ_le_succ (Nat.succ_le_succ hle)
  -- the string would take up the whole text, but that does not end with a quote
  have hall : (quote :: body) ++ [quote] = (s.toList ++ ['(']) ++ [')'] := by
    rw [List.append_assoc]
    exact (hpart.sublist.eq_of_length_le hlength).trans String.toList_append
  have hlast : quote = ')' := List.singleton_inj.1 (List.append_inj' hall rfl).2
  subst hlast
  exact absurd hquote (by decide)

/-- A plain name before an empty argument list is called. -/
theorem ofString_call_of_isPlainName {s : String} (h : isPlainName s = true) :
    ofString (s ++ "()") = .ok (call (string s) []) := by
  have hlexes : Lexes (s ++ "()").toList [⟨.identifier, s⟩, symbol "(", symbol ")"] := by
    rw [String.toList_append]
    exact (Lexes.name (isName_of_isPlainName h)).append (breaks_cons rfl _)
      (Lexes.nil.parentheses .nil)
  have hder : Derives (some "") 1 (.expression (call (string s) [])) _ [] :=
    (Derives.operand_name h _).expression_call (.noArguments (t := symbol ")") rfl) rfl rfl
  exact (ofString_of_derives hlexes hder).1 (by decide)

/-! ## Printed calls -/

theorem length_le_flatMap_escaped (cs : List Char) : cs.length ≤ (cs.flatMap escaped).length := by
  induction cs with
  | nil => exact le_rfl
  | cons c cs ih =>
    have hpos := List.length_pos_iff.2 (escaped_ne_nil c)
    rw [List.flatMap_cons, List.length_append, List.length_cons]
    omega

theorem text_call_string_iff (s : String) (es : List Expr) :
    (call (string s) es).text = s ++ "(" ++ listText es ++ ")" ↔ isPlainName s = true := by
  have hbare : (s ++ "(" ++ listText es ++ ")").toList =
      s.toList ++ '(' :: (commaSeparated (charsList es) ++ [')']) := by
    simp [listText]
  rw [← String.toList_inj, hbare, text, String.toList_ofList]
  by_cases h : isPlainName s = true
  · have hcallee : (string s).bareCallee? = some s := if_pos h
    exact iff_of_true (chars_call_of_bare hcallee es) h
  · have hcallee : (string s).bareCallee? = none := if_neg h
    refine iff_of_false (fun heq ↦ ?_) h
    rw [chars_call_of_not_bare hcallee, List.append_left_inj] at heq
    have hquoted : quotedChars s.toList = s.toList := heq
    have hlength := congrArg List.length hquoted
    have hle := length_le_flatMap_escaped s.toList
    rw [quotedChars, List.length_cons, List.length_append, List.length_singleton] at hlength
    omega

/-! ## Plain names -/

/-- A text is a plain name exactly if it is cut into one token, a name with that text, and read as
the variable of that name. And exactly then it is printed without quotes as the function of a call,
which is exactly when it is read as that function before an empty argument list. -/
theorem isPlainName_iff_read (s : String) :
    (isPlainName s = true ↔
      (∃ p q, (Source.ofString s).tokens = .ok [⟨.identifier, s, p⟩, Token.eof q]) ∧
        ofString s = .ok (name s)) ∧
    ∀ es, (call (string s) es).text = s ++ "(" ++ listText es ++ ")" ↔
      ofString (s ++ "()") = .ok (call (string s) []) := by
  refine ⟨⟨fun h ↦ ⟨?_, (Reads.name h).read⟩, fun h ↦ ?_⟩, fun es ↦ ?_⟩
  · obtain ⟨us, q, htokens, hus⟩ := tokens_of_lexes (.name (isName_of_isPlainName h))
    obtain ⟨⟨kind, text, p⟩, rfl, ht⟩ := List.map_eq_singleton_iff.1 hus
    cases ht
    exact ⟨p, q, htokens⟩
  · exact (parsed_of_ofString h.2).node
  · rw [text_call_string_iff]
    exact ⟨ofString_call_of_isPlainName, isPlainName_of_ofString⟩

/-- A keyword before an empty argument list is called, but it is not called by its name. -/
example : ofString "null()" = .ok (call (literal .null) []) := by cbv

end Expr

end TemplateExpr
