import TemplateExpr.Proofs.Streams

/-!
# Logical operators as words

A stream that is read stays so, with the same tree, if its logical operators are written as the
words `or` and `and` instead of `||` and `&&` (`Reading.same_of_worded`).

## A word can be more than a symbol

A word can be taken for more than a symbol can: for an operand, and so for an element of an array
that comes without a comma. But where a symbol has been read there is no choice. It is an operator,
and in the same place the word is one as well; or it is the name of a filter, and then the tree has
a filter of that name, which is excluded.

## Derivations instead of readings

So the statement is about derivations (`Derives.map_worded`), and not about what reading does at
each token: a stream that is refused with the symbols may be read with the words. An expression, a
list and a list before other tokens are phrases, so they are settled together
(`Reading.Recognizes.exists_ok_of_worded`).
-/

namespace TemplateExpr

open Terminal

/-! ## Terminals -/

namespace Terminal

/-- A terminal, with a logical operator written as a word. -/
def worded (t : Terminal) : Terminal :=
  if t = symbol "||" then ⟨.identifier, "or"⟩
  else if t = symbol "&&" then ⟨.identifier, "and"⟩
  else t

variable {t : Terminal} {lexeme : String}

theorem worded_of_text_ne (h : t.text ≠ "||") (h' : t.text ≠ "&&") : t.worded = t := by
  rw [worded, if_neg, if_neg]
  · rintro rfl
    exact h' rfl
  · rintro rfl
    exact h rfl

theorem worded_of_kind_ne (h : t.kind ≠ .symbol) : t.worded = t := by
  rw [worded, if_neg, if_neg]
  · rintro rfl
    exact h rfl
  · rintro rfl
    exact h rfl

theorem kind_worded_eq_eof_iff (t : Terminal) : t.worded.kind = .eof ↔ t.kind = .eof := by
  by_cases h : t.kind = .symbol
  · rw [worded, h]
    split
    · decide
    split
    · decide
    · rw [h]
  · rw [worded_of_kind_ne h]

theorem spells_worded (h : lexeme ∉ ["||", "or", "&&", "and"]) (t : Terminal) :
    t.worded.spells lexeme = t.spells lexeme := by
  simp only [List.mem_cons, List.not_mem_nil, or_false, not_or] at h
  obtain ⟨hor, hor', hand, hand'⟩ := h
  have hsame : ∀ t t' : Terminal, t.text ≠ lexeme → t'.text ≠ lexeme →
      t'.spells lexeme = t.spells lexeme := by
    intro t t' ht ht'
    rw [spells_eq_false_of_text_ne ht, spells_eq_false_of_text_ne ht']
  rw [worded]
  split
  · next ht => exact ht ▸ hsame _ _ (Ne.symm hor) (Ne.symm hor')
  split
  · next ht => exact ht ▸ hsame _ _ (Ne.symm hand) (Ne.symm hand')
  · rfl

theorem begins_map_worded (h : lexeme ∉ ["||", "or", "&&", "and"]) (ts : List Terminal) :
    begins (ts.map worded) lexeme = begins ts lexeme := by
  cases ts with
  | nil => rfl
  | cons t ts => exact spells_worded h t

/-- Both spellings of a logical operator are in the table of its level, and in no other table. -/
theorem operator?_map_worded {operators : List (String × BinaryOp)}
    (h : operators ∈ BinaryOp.levels) (ts : List Terminal) :
    operator? operators (ts.map worded) = operator? operators ts := by
  cases ts with
  | nil => rfl
  | cons t ts =>
    have hall : ∀ operators ∈ BinaryOp.levels,
        operator? operators [⟨.identifier, "or"⟩] = operator? operators [symbol "||"] ∧
        operator? operators [⟨.identifier, "and"⟩] = operator? operators [symbol "&&"] := by decide
    show operator? operators [t.worded] = operator? operators [t]
    rw [worded]
    split
    · next ht => exact ht ▸ (hall operators h).1
    split
    · next ht => exact ht ▸ (hall operators h).2
    · rfl

end Terminal

/-! ## Derivations -/

def NoLogicalNames (names : List String) : Prop := ∀ n ∈ names, n ≠ "||" ∧ n ≠ "&&"

namespace NoLogicalNames

variable {names names' : List String} {n : String}

theorem append_iff : NoLogicalNames (names ++ names') ↔
    NoLogicalNames names ∧ NoLogicalNames names' :=
  List.forall_mem_append

theorem cons_iff : NoLogicalNames (n :: names) ↔ (n ≠ "||" ∧ n ≠ "&&") ∧ NoLogicalNames names :=
  List.forall_mem_cons

theorem filter_iff {e : Expr} {es : List Expr} :
    NoLogicalNames (Expr.filter n (e :: es)).filterNames ↔ NoLogicalNames e.filterNames ∧
      (n ≠ "||" ∧ n ≠ "&&") ∧ NoLogicalNames (Expr.filterNamesList es) := by
  rw [Expr.filterNames, append_iff, cons_iff]

theorem cons_trees_iff {e : Expr} {es : List Expr} :
    NoLogicalNames (Expr.filterNamesList (e :: es)) ↔
      NoLogicalNames e.filterNames ∧ NoLogicalNames (Expr.filterNamesList es) := by
  rw [Expr.filterNamesList, append_iff]

end NoLogicalNames

/-! ## Names in phrases -/

/-- The names of all the filters in what a phrase comes to. -/
def Phrase.filterNames : Phrase → List String
  | expression e | ternary e | chain _ e | operand e => e.filterNames
  | suffixes _ after | chainRest _ _ _ after => after.filterNames
  | arguments es | listRest es | elements es => Expr.filterNamesList es

namespace Derives

variable {atEnd : Option String} {d : Nat} {p : Phrase} {ts rest : List Terminal} {e e' : Expr}

theorem exists_adds (h : Derives atEnd d p ts rest) : ∃ names, p.Adds names := by
  obtain ⟨_, names, _, -, hadds, -⟩ := h.names_adds
  exact ⟨names, hadds⟩

theorem noLogicalNames_of_suffixes (h : Derives atEnd d (.suffixes e e') ts rest)
    (hnames : NoLogicalNames e'.filterNames) : NoLogicalNames e.filterNames := by
  obtain ⟨names, hadds : e'.filterNames = e.filterNames ++ names⟩ := h.exists_adds
  exact (NoLogicalNames.append_iff.1 (hadds ▸ hnames)).1

theorem noLogicalNames_of_chainRest {operators : List (String × BinaryOp)}
    {tighter : List (List (String × BinaryOp))}
    (h : Derives atEnd d (.chainRest operators tighter e e') ts rest)
    (hnames : NoLogicalNames e'.filterNames) : NoLogicalNames e.filterNames := by
  obtain ⟨names, hadds : e'.filterNames = e.filterNames ++ names⟩ := h.exists_adds
  exact (NoLogicalNames.append_iff.1 (hadds ▸ hnames)).1

/-- A phrase is derived as well from its terminals with the logical operators as words, if none of
its filters is named by one. -/
theorem map_worded (h : Derives atEnd d p ts rest) (hlevels : p.levels ⊆ BinaryOp.levels)
    (hnames : NoLogicalNames p.filterNames) :
    Derives atEnd d p (ts.map Terminal.worded) (rest.map Terminal.worded) := by
  have hspells : ∀ {t : Terminal} {lexeme : String}, t.spells lexeme = true →
      lexeme ∉ ["||", "or", "&&", "and"] → t.worded.spells lexeme = true :=
    fun ht hlexeme ↦ (spells_worded hlexeme _).trans ht
  have hbegins : ∀ {ts : List Terminal} {lexeme : String}, begins ts lexeme = false →
      lexeme ∉ ["||", "or", "&&", "and"] → begins (ts.map Terminal.worded) lexeme = false :=
    fun hts hlexeme ↦ (begins_map_worded hlexeme _).trans hts
  induction h with
  | expression _ tail ih ih' =>
    exact .expression (ih hlevels (tail.noLogicalNames_of_suffixes hnames)) (ih' hlevels hnames)
  | noSuffix hcall hpipe =>
    exact .noSuffix (hbegins hcall (by decide)) (hbegins hpipe (by decide))
  | call ht _ tail ih ih' =>
    have hcall := tail.noLogicalNames_of_suffixes hnames
    rw [Expr.filterNames, NoLogicalNames.append_iff] at hcall
    exact .call (hspells ht (by decide)) (ih hlevels hcall.2) (ih' hlevels hnames)
  | @filter _ _ _ _ name _ _ ht hnone tail ih =>
    obtain ⟨-, hname, -⟩ :=
      NoLogicalNames.filter_iff.1 (tail.noLogicalNames_of_suffixes hnames)
    rw [List.map_cons, List.map_cons, worded_of_text_ne hname.1 hname.2]
    exact .filter (hspells ht (by decide)) (hbegins hnone (by decide)) (ih hlevels hnames)
  | @filterWith _ _ _ _ _ _ name _ _ _ _ ht ht' _ tail ih ih' =>
    obtain ⟨-, hname, harguments⟩ :=
      NoLogicalNames.filter_iff.1 (tail.noLogicalNames_of_suffixes hnames)
    rw [List.map_cons, List.map_cons, worded_of_text_ne hname.1 hname.2]
    exact .filterWith (hspells ht (by decide)) (hspells ht' (by decide)) (ih hlevels harguments)
      (ih' hlevels hnames)
  | filterAtEnd hname ht => exact .filterAtEnd hname (hspells ht (by decide))
  | noArguments ht => exact .noArguments (hspells ht (by decide))
  | someArguments hsome _ _ ht ih ih' =>
    obtain ⟨hhead, htail⟩ := NoLogicalNames.cons_trees_iff.1 hnames
    exact .someArguments (hbegins hsome (by decide)) (ih hlevels hhead) (ih' hlevels htail)
      (hspells ht (by decide))
  | listEnd hend => exact .listEnd (hbegins hend (by decide))
  | listMore ht _ _ ih ih' =>
    obtain ⟨hhead, htail⟩ := NoLogicalNames.cons_trees_iff.1 hnames
    exact .listMore (hspells ht (by decide)) (ih hlevels hhead) (ih' hlevels htail)
  | noElements ht => exact .noElements (hspells ht (by decide))
  | element hsome _ hnone _ ih ih' =>
    obtain ⟨hhead, htail⟩ := NoLogicalNames.cons_trees_iff.1 hnames
    exact .element (hbegins hsome (by decide)) (ih hlevels hhead) (hbegins hnone (by decide))
      (ih' hlevels htail)
  | elementComma hsome _ ht _ ih ih' =>
    obtain ⟨hhead, htail⟩ := NoLogicalNames.cons_trees_iff.1 hnames
    exact .elementComma (hbegins hsome (by decide)) (ih hlevels hhead) (hspells ht (by decide))
      (ih' hlevels htail)
  | noChoice _ hend ih =>
    exact .noChoice (ih (List.Subset.refl _) hnames) (hbegins hend (by decide))
  | choice _ ht _ ht' _ ih ih' ih'' =>
    rw [Phrase.filterNames, Expr.filterNames, NoLogicalNames.append_iff,
      NoLogicalNames.append_iff] at hnames
    obtain ⟨hcondition, hthen, helse⟩ := hnames
    exact .choice (ih (List.Subset.refl _) hcondition) (hspells ht (by decide))
      (ih' hlevels hthen) (hspells ht' (by decide)) (ih'' hlevels helse)
  | single _ ih => exact .single (ih (List.nil_subset _) hnames)
  | chain _ tail ih ih' =>
    exact .chain (ih (List.subset_of_cons_subset hlevels) (tail.noLogicalNames_of_chainRest hnames))
      (ih' hlevels hnames)
  | chainEnd hend =>
    exact .chainEnd ((operator?_map_worded (hlevels List.mem_cons_self) _).trans hend)
  | @chainMore _ _ _ _ _ _ _ _ t ts _ _ hop _ tail ih ih' =>
    have hbinary := tail.noLogicalNames_of_chainRest hnames
    rw [Expr.filterNames, NoLogicalNames.append_iff] at hbinary
    have hop' := (operator?_map_worded (hlevels List.mem_cons_self) (t :: ts)).trans hop
    exact .chainMore hop' (ih (List.subset_of_cons_subset hlevels) hbinary.2) (ih' hlevels hnames)
  | parentheses ht _ ht' ih =>
    exact .parentheses (hspells ht (by decide)) (ih hlevels hnames) (hspells ht' (by decide))
  | array ht _ ih => exact .array (hspells ht (by decide)) (ih hlevels hnames)
  | @unary _ op _ t _ _ hkind hop _ ih =>
    -- the symbol of a prefix operator is not that of a logical one
    have htext : ∀ {s : String}, UnaryOp.ofSpelling? s = none → t.text ≠ s := by
      rintro s hs rfl
      exact Option.some_ne_none op (hop.symm.trans hs)
    rw [List.map_cons, worded_of_text_ne (htext rfl) (htext rfl)]
    exact .unary hkind hop (ih hlevels hnames)
  | @number _ t _ hkind hv =>
    rw [List.map_cons, worded_of_kind_ne (by simp [hkind])]
    exact .number hkind hv
  | @string t _ hkind =>
    rw [List.map_cons, worded_of_kind_ne (by simp [hkind])]
    exact .string hkind
  | @word t _ hkind hparen hbracket =>
    rw [List.map_cons, worded_of_kind_ne (by simp [hkind])]
    exact .word hkind hparen hbracket

end Derives

/-! ## Streams -/

/-- A token is another one with a logical operator written as a word. It may stand elsewhere. -/
def Token.Worded (t t' : Token) : Prop := t'.terminal = t.terminal.worded

theorem Token.Worded.isEof {t t' : Token} (h : t.Worded t') :
    t'.isEof = t.isEof ∧ (t.isEof = true → t'.text = t.text) := by
  refine ⟨decide_eq_decide.2 ?_, fun heof ↦ ?_⟩
  · have hkind : t'.kind = t.terminal.worded.kind := congrArg Terminal.kind h
    rw [hkind]
    exact kind_worded_eq_eof_iff t.terminal
  · have hkind : t.terminal.kind = .eof := of_decide_eq_true heof
    have hsame : t.terminal.worded = t.terminal := worded_of_kind_ne (by rw [hkind]; decide)
    exact congrArg Terminal.text (h.trans hsame)

section Stream

variable {ts ts' : List Token}

theorem terminals_ofTokens_of_worded (h : List.Forall₂ Token.Worded ts ts') :
    (Cursor.ofTokens ts').terminals = (Cursor.ofTokens ts).terminals.map Terminal.worded := by
  show (ts'.takeWhile (!·.isEof)).map _ = ((ts.takeWhile (!·.isEof)).map _).map _
  induction h with
  | nil => rfl
  | @cons t t' ts ts' ht _ ih =>
    rw [List.takeWhile_cons, List.takeWhile_cons, ht.isEof.1]
    split
    · rw [List.map_cons, List.map_cons, List.map_cons, ih, show t'.terminal = _ from ht]
    · rfl

theorem text_stopOf_of_worded (h : List.Forall₂ Token.Worded ts ts') :
    (Cursor.stopOf ts').text = (Cursor.stopOf ts).text := by
  have htext (ts : List Token) :
      (Cursor.stopOf ts).text = ((ts.find? Token.isEof).map Token.text).getD "" := by
    rw [Cursor.stopOf]
    cases ts.find? Token.isEof <;> rfl
  rw [htext, htext]
  induction h with
  | nil => rfl
  | @cons t t' ts ts' ht _ ih =>
    rw [List.find?_cons, List.find?_cons, ht.isEof.1]
    cases hend : t.isEof with
    | true => exact ht.isEof.2 hend
    | false => exact ih

end Stream

namespace Reading

variable {α : Type} {front : List Terminal} {phrase : α → Phrase} {r : Reading α}
  {ts ts' : List Token} {a : α}

/-! ## Readings -/

/-- What is read of a stream is read of the stream with words, up to the same token. -/
theorem Recognizes.exists_ok_of_worded (hr : Recognizes front phrase r)
    (hfront : front.map Terminal.worded = front) (h : List.Forall₂ Token.Worded ts ts')
    (hnames : NoLogicalNames (phrase a).filterNames) {c : Cursor}
    (hread : r (Cursor.ofTokens ts) = .ok a c) : ∃ c', r (Cursor.ofTokens ts') = .ok a c' ∧
      c'.terminals = c.terminals.map Terminal.worded ∧ c'.offset = c.offset := by
  obtain ⟨d, hd, hder⟩ := hr.sound hread
  have hworded := hder.map_worded (hr.levels a) hnames
  have hstop : (Cursor.ofTokens ts).stop.text = (Cursor.ofTokens ts').stop.text :=
    (text_stopOf_of_worded h).symm
  rw [List.map_append, hfront, ← terminals_ofTokens_of_worded h, hstop] at hworded
  obtain ⟨c', hread', hrest⟩ := hr.complete hworded hd
  refine ⟨c', hread', hrest, ?_⟩
  -- both streams have as many tokens, and as many of them are left
  have hall := congrArg List.length (terminals_ofTokens_of_worded h)
  have hleft := congrArg List.length hrest
  have hsplit := congrArg List.length (hr.ahead_eq hread)
  have hsplit' := congrArg List.length (hr.ahead_eq hread')
  rw [List.length_map, Cursor.length_terminals, Cursor.length_terminals] at hall hleft
  rw [List.length_append, List.length_reverse] at hsplit hsplit'
  rw [Cursor.offset, Cursor.offset]
  omega

theorem Recognizes.toEnd_worded (hr : Recognizes front phrase r)
    (hfront : front.map Terminal.worded = front) (h : List.Forall₂ Token.Worded ts ts')
    (hnames : NoLogicalNames (phrase a).filterNames) (hread : (toEnd r).onTokens ts = .ok a) :
    (toEnd r).onTokens ts' = .ok a := by
  rw [onTokens_toEnd_eq_ok_iff] at hread ⊢
  obtain ⟨c, hread, hend⟩ := hread
  obtain ⟨c', hread', hrest, -⟩ := hr.exists_ok_of_worded hfront h hnames hread
  exact ⟨c', hread', by rw [hrest, hend]; rfl⟩

/-- A stream that is read is read in the same way with its logical operators as words, if no filter
is named by one: as an expression, as a list of them and as a list before other tokens. -/
theorem same_of_worded (h : List.Forall₂ Token.Worded ts ts') :
    (∀ e, NoLogicalNames e.filterNames → whole.onTokens ts = .ok e →
        whole.onTokens ts' = .ok e) ∧
      (∀ es, NoLogicalNames (Expr.filterNamesList es) → wholeList.onTokens ts = .ok es →
        wholeList.onTokens ts' = .ok es) ∧
      ∀ es c, NoLogicalNames (Expr.filterNamesList es) →
        list.outcome (Cursor.ofTokens ts) = (.ok es, c) →
          ∃ c', list.outcome (Cursor.ofTokens ts') = (.ok es, c') ∧ c'.offset = c.offset := by
  refine ⟨fun e hnames ↦ ?_, fun es hnames ↦ ?_, fun es c hnames hread ↦ ?_⟩
  · exact recognizes_expression.toEnd_worded rfl h hnames
  · exact recognizes_list.toEnd_worded (by decide) h hnames
  · obtain ⟨c', hread', -, hoffset⟩ :=
      recognizes_list.exists_ok_of_worded (by decide) h hnames (eq_ok_of_outcome hread)
    exact ⟨c', outcome_of_ok hread', hoffset⟩

theorem same_of_worded_of_array :
    let ts : List Token :=
      [⟨.symbol, "(", ⟨1, 1, 0⟩⟩, ⟨.identifier, "x", ⟨1, 2, 1⟩⟩, ⟨.symbol, "|", ⟨1, 3, 2⟩⟩,
        ⟨.identifier, "f", ⟨1, 4, 3⟩⟩, ⟨.symbol, ")", ⟨1, 5, 4⟩⟩, ⟨.symbol, "||", ⟨1, 7, 6⟩⟩,
        ⟨.symbol, "[", ⟨1, 10, 9⟩⟩, ⟨.identifier, "y", ⟨1, 11, 10⟩⟩,
        ⟨.symbol, "&&", ⟨1, 13, 12⟩⟩, ⟨.identifier, "z", ⟨1, 16, 15⟩⟩,
        ⟨.symbol, "]", ⟨1, 17, 16⟩⟩]
    let ts' : List Token :=
      [⟨.symbol, "(", ⟨1, 1, 0⟩⟩, ⟨.identifier, "x", ⟨1, 2, 1⟩⟩, ⟨.symbol, "|", ⟨1, 3, 2⟩⟩,
        ⟨.identifier, "f", ⟨1, 4, 3⟩⟩, ⟨.symbol, ")", ⟨1, 5, 4⟩⟩, ⟨.identifier, "or", ⟨1, 7, 6⟩⟩,
        ⟨.symbol, "[", ⟨1, 10, 9⟩⟩, ⟨.identifier, "y", ⟨1, 11, 10⟩⟩,
        ⟨.identifier, "and", ⟨1, 13, 12⟩⟩, ⟨.identifier, "z", ⟨1, 17, 16⟩⟩,
        ⟨.symbol, "]", ⟨1, 18, 17⟩⟩]
    let e : Expr := .binary .or (.filter "f" [.name "x"])
      (.array [.binary .and (.name "y") (.name "z")])
    List.Forall₂ Token.Worded ts ts' ∧ NoLogicalNames e.filterNames ∧
      NoLogicalNames (Expr.filterNamesList [e]) ∧ whole.onTokens ts = .ok e ∧
      whole.onTokens ts' = .ok e ∧ wholeList.onTokens ts = .ok [e] ∧
      wholeList.onTokens ts' = .ok [e] := by
  intro ts ts' e
  have h : List.Forall₂ Token.Worded ts ts' :=
    .cons rfl <| .cons rfl <| .cons rfl <| .cons rfl <| .cons rfl <| .cons rfl <| .cons rfl <|
      .cons rfl <| .cons rfl <| .cons rfl <| .cons rfl .nil
  have hnames : NoLogicalNames e.filterNames := by
    unfold NoLogicalNames
    decide
  have hnames' : NoLogicalNames (Expr.filterNamesList [e]) :=
    NoLogicalNames.cons_trees_iff.2 ⟨hnames, List.forall_mem_nil _⟩
  have hread : whole.onTokens ts = .ok e := by cbv
  have hlist : wholeList.onTokens ts = .ok [e] := by rfl
  obtain ⟨hwhole, hwholeList, -⟩ := same_of_worded h
  exact ⟨h, hnames, hnames', hread, hwhole e hnames hread, hlist, hwholeList [e] hnames' hlist⟩

/-- A filter named by the symbol would be named by the word instead. -/
example :
    let ts : List Terminal := [⟨.identifier, "a"⟩, symbol "|", symbol "||"]
    whole.onTokens (ts.map Terminal.token) = .ok (.filter "||" [.name "a"]) ∧
      whole.onTokens ((ts.map Terminal.worded).map Terminal.token) =
        .ok (.filter "or" [.name "a"]) :=
  ⟨rfl, rfl⟩

end Reading

end TemplateExpr
