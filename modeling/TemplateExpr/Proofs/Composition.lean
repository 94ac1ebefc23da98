import TemplateExpr.Expr.Infix
import TemplateExpr.Proofs.Building
import TemplateExpr.Proofs.Sources

/-!
# Putting texts together

Each construct of the language can be written around any texts that are read as expressions, with
parentheses around the operands, and is then read as the node that it writes, unless that has too
many levels (`yields_of_composes`).

## Two halves of each construct

Nothing is read twice here. A text that is read is cut into terminals from which its tree is derived
(`Reads.exists_lexes_stands`), and both facts are kept for the text around it: the terminals of that
are those of the parts with a few more between them, and its derivation is a rule of the grammar on
top of the derivations of the parts. So there is one case for each construct, and it has two halves,
one about characters and one about terminals.

What could go wrong is at the seams. A lexeme must not reach into the next part, so each part is
followed by a character that ends any lexeme. And what is derived at the end of a text has to be
derived before a delimiter, too, with the same lookahead (`Stands`).

## Pipes

The texts inside have to end without a pipe: a filter whose name is missing takes its name from the
end of the text, and would take the delimiter after it for one.
-/

namespace TemplateExpr

open Terminal Text

/-! ## Texts and constructs -/

/-- A text is read as an expression and does not end with a pipe. -/
structure Reads (s : String) (e : Expr) : Prop where
  /-- The text is read. -/
  read : Expr.ofString s = .ok e
  /-- The last token before the end is no pipe. -/
  noPipe : ∀ ts, (Source.ofString s).tokens = .ok ts →
    ∀ t ∈ ts.dropLast.getLast?, t.isSymbol "|" = false

/-- A text is one construct around texts that are read, and an expression is the node for it. -/
inductive Composes : String → Expr → Prop where
  /-- `(s)`. -/
  | parentheses {s : String} {e : Expr} (h : Reads s e) : Composes ("(" ++ s ++ ")") e
  /-- `[s,…,s]`. -/
  | array {ss : List String} {es : List Expr} (h : List.Forall₂ Reads ss es) :
      Composes ("[" ++ ",".intercalate ss ++ "]") (.array es)
  /-- `f(s,…,s)`. -/
  | callByName {f : String} {ss : List String} {es : List Expr}
      (hf : Expr.isPlainName f = true) (h : List.Forall₂ Reads ss es) :
      Composes (f ++ "(" ++ ",".intercalate ss ++ ")") (.call (.string f) es)
  /-- `(s)(s,…,s)`. -/
  | call {s : String} {e : Expr} {ss : List String} {es : List Expr} (h : Reads s e)
      (h' : List.Forall₂ Reads ss es) :
      Composes ("(" ++ s ++ ")(" ++ ",".intercalate ss ++ ")") (.call (Grammar.callee e) es)
  /-- `(s)|f(s,…,s)`. -/
  | filter {s f : String} {e : Expr} {ss : List String} {es : List Expr}
      (hf : Expr.isPlainName f = true) (h : Reads s e) (h' : List.Forall₂ Reads ss es) :
      Composes ("(" ++ s ++ ")|" ++ f ++ "(" ++ ",".intercalate ss ++ ")") (.filter f (e :: es))
  /-- `u(s)`. -/
  | unary {s : String} {e : Expr} (op : UnaryOp) (h : Reads s e) :
      Composes (op.spelling ++ "(" ++ s ++ ")") (.unary op e)
  /-- `(s) op (s)`. -/
  | binary {s s' lexeme : String} {e e' : Expr} {op : BinaryOp}
      (hop : (lexeme, op) ∈ BinaryOp.levels.flatten) (h : Reads s e) (h' : Reads s' e') :
      Composes ("(" ++ s ++ ") " ++ lexeme ++ " (" ++ s' ++ ")") (.binary op e e')
  /-- `(s)?s:s`. -/
  | ternary {s s' s'' : String} {e e' e'' : Expr} (h : Reads s e) (h' : Reads s' e')
      (h'' : Reads s'' e'') : Composes ("(" ++ s ++ ")?" ++ s' ++ ":" ++ s'') (.ternary e e' e'')

/-! ## The parts -/

namespace Reads

variable {s : String} {e : Expr}

theorem exists_lexes_stands (h : Reads s e) : ∃ ts d, Lexes s.toList ts ∧ Stands d e ts := by
  obtain ⟨ts, d, hlexes, -, hder⟩ := Expr.derives_of_ofString h.read
  obtain ⟨us, p, htokens, rfl⟩ := Expr.tokens_of_lexes hlexes
  refine ⟨_, d, hlexes, .of_lexes (hder.of_endsWithoutPipe (List.nil_subset _) ?_) hlexes⟩
  intro t ht
  -- a terminal that is no symbol spells no pipe, whatever its text is
  by_cases hkind : t.kind = .symbol
  · rw [List.getLast?_map, Option.mem_def, Option.map_eq_some_iff] at ht
    obtain ⟨u, hu, rfl⟩ := ht
    have hpipe := h.noPipe _ htokens u (by rwa [List.dropLast_concat])
    rw [Token.isSymbol, Bool.and_eq_false_iff, decide_eq_false_iff_not,
      decide_eq_false_iff_not] at hpipe
    exact spells_eq_false_of_text_ne (hpipe.resolve_left (absurd hkind))
  · exact (hlexes.lexical t (List.mem_of_getLast? ht)).spells_eq_false hkind (by decide)

theorem name (hs : Expr.isPlainName s = true) : Reads s (.name s) := by
  have hlexes := Lexes.name (isName_of_isPlainName hs)
  have hder : Derives (some "") 1 (.expression (.name s)) [⟨.identifier, s⟩] [] :=
    (Derives.operand_name hs []).expression_of_operand closes_nil
  refine ⟨(Expr.ofString_of_derives hlexes hder).1 (by decide), fun ts hts t ht ↦ ?_⟩
  obtain ⟨us, p, htokens, hus⟩ := Expr.tokens_of_lexes hlexes
  obtain rfl := Except.ok.inj (htokens.symm.trans hts)
  obtain ⟨u, rfl, hu⟩ := List.map_eq_singleton_iff.1 hus
  obtain rfl : u = t := by simpa using ht
  rw [Token.isSymbol, show u.kind = .identifier from congrArg Terminal.kind hu]
  rfl

theorem exists_lexes_standsList {ss : List String} {es : List Expr} (h : List.Forall₂ Reads ss es) :
    ∃ tss d, Lexes (",".intercalate ss).toList ([symbol ","].intercalate tss) ∧
      StandsList d es tss := by
  -- the texts are joined only after each of them has been cut
  suffices hparts : ∃ tss d, List.Forall₂ Lexes (ss.map String.toList) tss ∧
      StandsList d es tss by
    obtain ⟨tss, d, hlexes, hstands⟩ := hparts
    refine ⟨tss, d, ?_, hstands⟩
    rw [String.toList_intercalate]
    exact Lexes.intercalate hlexes rfl
  induction h with
  | nil => exact ⟨[], 0, .nil, .nil⟩
  | cons h _ ih =>
    obtain ⟨ts, d, hlexes, hstands⟩ := h.exists_lexes_stands
    obtain ⟨tss, d', hlexes', hstands'⟩ := ih
    exact ⟨ts :: tss, max d d', .cons hlexes hlexes', .cons hstands hstands'⟩

end Reads

/-! ## Operators -/

namespace Lexes

variable {cs ds : List Char} {ts us : List Terminal}

theorem operator_append {lexeme : String} {op : BinaryOp}
    (hop : (lexeme, op) ∈ BinaryOp.levels.flatten) (hds : Breaks ds) (h : Lexes ds us) :
    ∃ t : Terminal, t.spells lexeme = true ∧ Lexes (lexeme.toList ++ ds) (t :: us) := by
  have hall : ∀ p ∈ BinaryOp.levels.flatten,
      p.1 ∈ Lexeme.symbols ∨ isName p.1.toList = true := by decide
  rcases hall _ hop with hsymbol | hname
  · exact ⟨symbol lexeme, decide_eq_true rfl, symbol_append hsymbol (Lexeme.joins_of_breaks hds) h⟩
  · exact ⟨⟨.identifier, lexeme⟩, decide_eq_true rfl, (name hname).append hds h⟩

end Lexes

/-! ## The whole -/

/-- One construct around texts that are read is read as the node for it, unless that has too many
levels. -/
theorem yields_of_composes {s : String} {e : Expr} (h : Composes s e) : Yields s e := by
  cases h with
  | parentheses h =>
    obtain ⟨ts, d, hlexes, hstands⟩ := h.exists_lexes_stands
    have hder := (hstands.parentheses []).expression_of_operand closes_nil
    refine Expr.yields_of_derives ?_ hder.mono
    simp only [String.toList_append, List.append_assoc]
    exact hlexes.parentheses .nil
  | array h =>
    obtain ⟨tss, d, hlexes, hstands⟩ := Reads.exists_lexes_standsList h
    have hder := (Derives.array (t := symbol "[") rfl (hstands.elements [])).expression_of_operand
      closes_nil
    refine Expr.yields_of_derives ?_ hder.mono
    simp only [String.toList_append, List.append_assoc]
    exact hlexes.brackets .nil
  | callByName hf h =>
    obtain ⟨tss, d, hlexes, hstands⟩ := Reads.exists_lexes_standsList h
    have hder := (Derives.operand_name hf _).expression_call (hstands.arguments []) rfl rfl
    refine Expr.yields_of_derives ?_ hder.mono
    simp only [String.toList_append, List.append_assoc]
    exact (Lexes.name (isName_of_isPlainName hf)).append (breaks_cons rfl _)
      (hlexes.parentheses .nil)
  | call h h' =>
    obtain ⟨ts, d, hlexes, hstands⟩ := h.exists_lexes_stands
    obtain ⟨tss, d', hlexes', hstands'⟩ := Reads.exists_lexes_standsList h'
    have hder := (hstands.parentheses _).expression_call (hstands'.arguments []) rfl rfl
    refine Expr.yields_of_derives ?_ hder.mono
    simp only [String.toList_append, List.append_assoc]
    exact hlexes.parentheses (hlexes'.parentheses .nil)
  | @filter s f e ss es hf h h' =>
    obtain ⟨ts, d, hlexes, hstands⟩ := h.exists_lexes_stands
    obtain ⟨tss, d', hlexes', hstands'⟩ := Reads.exists_lexes_standsList h'
    have hder := (hstands.parentheses _).expression_filterWith ⟨.identifier, f⟩
      (hstands'.arguments []) rfl rfl
    refine Expr.yields_of_derives ?_ hder.mono
    simp only [String.toList_append, List.append_assoc]
    have hname := isName_of_isPlainName hf
    have hcall := (Lexes.name hname).append (breaks_cons rfl _) (hlexes'.parentheses .nil)
    exact hlexes.parentheses
      (.symbol_append (s := "|") (by decide) (Lexeme.joins_of_isName hname _) hcall)
  | unary op h =>
    obtain ⟨ts, d, hlexes, hstands⟩ := h.exists_lexes_stands
    have hder := (Derives.unary (t := symbol op.spelling) rfl op.ofSpelling?_spelling
      (hstands.parentheses [])).expression_of_operand closes_nil
    refine Expr.yields_of_derives ?_ hder.mono
    simp only [String.toList_append, List.append_assoc]
    exact .symbol_append op.spelling_mem_symbols (Lexeme.joins_of_breaks (breaks_cons rfl _))
      (hlexes.parentheses .nil)
  | binary hop h h' =>
    obtain ⟨ts, d, hlexes, hstands⟩ := h.exists_lexes_stands
    obtain ⟨ts', d', hlexes', hstands'⟩ := h'.exists_lexes_stands
    obtain ⟨t, ht, hlexes'⟩ := Lexes.operator_append hop (breaks_cons (c := ' ') rfl _)
      ((hlexes'.parentheses .nil).blank_cons rfl)
    have hder := (hstands.parentheses _).expression_of_operands (hstands'.parentheses []) ht hop
      closes_nil
    refine Expr.yields_of_derives ?_ hder.mono
    simp only [String.toList_append, List.append_assoc]
    exact hlexes.parentheses (hlexes'.blank_cons rfl)
  | ternary h h' h'' =>
    obtain ⟨ts, d, hlexes, hstands⟩ := h.exists_lexes_stands
    obtain ⟨ts', d', hlexes', hstands'⟩ := h'.exists_lexes_stands
    obtain ⟨ts'', d'', hlexes'', hstands''⟩ := h''.exists_lexes_stands
    have hder := (hstands.parentheses _).expression_choice
      (hstands'.derives_append (closes_symbol (by decide) _)) hstands''.derives rfl rfl
    refine Expr.yields_of_derives ?_ hder.mono
    simp only [String.toList_append, List.append_assoc]
    exact hlexes.parentheses (.delimiter_append (s := "?") (by decide)
      (hlexes'.append (breaks_cons rfl _) (.delimiter_append (s := ":") (by decide) hlexes'')))

/-- Every construct, around names. None of them has too many levels. -/
theorem yields_around_names :
    Expr.ofString "(a)" = .ok (.name "a") ∧
    Expr.ofString "[a,b]" = .ok (.array [.name "a", .name "b"]) ∧
    Expr.ofString "f(a,b)" = .ok (.call (.string "f") [.name "a", .name "b"]) ∧
    Expr.ofString "(a)(b)" = .ok (.call (.string "a") [.name "b"]) ∧
    Expr.ofString "(a)|f(b)" = .ok (.filter "f" [.name "a", .name "b"]) ∧
    Expr.ofString "~(a)" = .ok (.unary .bitNot (.name "a")) ∧
    Expr.ofString "(a) or (b)" = .ok (.binary .or (.name "a") (.name "b")) ∧
    Expr.ofString "(a)?b:c" = .ok (.ternary (.name "a") (.name "b") (.name "c")) :=
  have ha : Reads "a" (.name "a") := .name rfl
  have hb : Reads "b" (.name "b") := .name rfl
  have hc : Reads "c" (.name "c") := .name rfl
  ⟨(yields_of_composes (.parentheses ha)).ofString_eq (by decide +kernel),
    (yields_of_composes (.array (.cons ha (.cons hb .nil)))).ofString_eq (by decide +kernel),
    (yields_of_composes (.callByName (f := "f") rfl (.cons ha (.cons hb .nil)))).ofString_eq
      (by decide +kernel),
    (yields_of_composes (.call ha (.cons hb .nil))).ofString_eq (by decide +kernel),
    (yields_of_composes (.filter (f := "f") rfl ha (.cons hb .nil))).ofString_eq
      (by decide +kernel),
    (yields_of_composes (.unary .bitNot ha)).ofString_eq (by decide +kernel),
    (yields_of_composes (.binary (show ("or", .or) ∈ BinaryOp.levels.flatten by decide) ha
      hb)).ofString_eq (by decide +kernel),
    (yields_of_composes (.ternary ha hb hc)).ofString_eq (by decide +kernel)⟩

end TemplateExpr
