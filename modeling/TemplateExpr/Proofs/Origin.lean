import TemplateExpr.Proofs.Rereading

/-!
# Trees that come from texts

An expression that has been read is read back from its infix form exactly when it has no call where
an operand has to stand and no more levels than there may be. This is shown for the expressions
whose leaves are variables (`Expr.NamesOnly`), where nothing but the structure of the tree is at
stake.

## What reading makes

That a tree has been read is used for the rest of what `Expr.Printable` asks for (`Expr.Parsed`):
variables have plain names, no name is the function of a call, and a filter has an input. Such a
property is kept by every rule of the grammar, and so it holds of every tree that has a derivation
(`Expr.KeptByRules`).

## Properties of nodes

Most properties of trees that are asked about are properties of their nodes, and for these the rules
come down to what is made of a word, a call and a filter (`Expr.OfReading`). The other constructs
put a node around parts without looking at them.
-/

namespace TemplateExpr

open Terminal Text

/-- A phrase stands for trees with a property, if those it goes on from have it. -/
def Phrase.Holds (p : Expr → Prop) : Phrase → Prop
  | expression e | ternary e | chain _ e | operand e => p e
  | suffixes before after => p before → p after
  | chainRest _ _ left e => p left → p e
  | arguments es | listRest es | elements es => ∀ e ∈ es, p e

namespace Expr

/-! ## What the rules make -/

/-- Every rule of the grammar makes trees with a property out of trees with it and of terminals with
another one. -/
structure KeptByRules (P : Terminal → Prop) (p : Expr → Prop) : Prop where
  /-- A number. -/
  number {t : Terminal} {v : Literal} (ht : P t) (hkind : t.kind = .number)
    (hv : Literal.ofNumber? t.text.toList = some v) : p (literal v)
  /-- A string. -/
  string {t : Terminal} (ht : P t) (hkind : t.kind = .string) : p (string t.text)
  /-- A word. -/
  word {t : Terminal} (ht : P t) (hkind : t.kind = .identifier) : p (Grammar.word t.text)
  /-- An operand with an operator before it. -/
  unary (op : UnaryOp) (a : Expr) (ha : p a) : p (unary op a)
  /-- Operands with an operator between them. -/
  binary (op : BinaryOp) (l r : Expr) (hl : p l) (hr : p r) : p (binary op l r)
  /-- A choice. -/
  ternary (c a b : Expr) (hc : p c) (ha : p a) (hb : p b) : p (ternary c a b)
  /-- An array. -/
  array {es : List Expr} (hes : ∀ e ∈ es, p e) : p (array es)
  /-- A call. -/
  call {f : Expr} {es : List Expr} (hf : p f) (hes : ∀ e ∈ es, p e) :
    p (call (Grammar.callee f) es)
  /-- A filter and what is piped into it. -/
  filter {e : Expr} {es : List Expr} (n : String) (he : p e) (hes : ∀ e ∈ es, p e) :
    p (filter n (e :: es))

theorem KeptByRules.holds_of_derives {P : Terminal → Prop} {p : Expr → Prop}
    (hp : KeptByRules P p) {atEnd : Option String} {d : Nat} {ph : Phrase}
    {ts rest : List Terminal} (h : Derives atEnd d ph ts rest) (hts : ∀ t ∈ ts, P t) :
    ph.Holds p := by
  induction h with
  | expression head _ ih ih' =>
    exact ih' (fun t ht ↦ hts t (head.rest_suffix.subset ht)) (ih hts)
  | noSuffix | chainEnd => exact id
  | call _ head _ ih ih' =>
    intro he
    have htail := fun t ht ↦ hts t (List.mem_cons_of_mem _ ht)
    exact ih' (fun t ht ↦ htail t (head.rest_suffix.subset ht)) (hp.call he (ih htail))
  | filter _ _ _ ih =>
    intro he
    exact ih (fun t ht ↦ hts t (List.mem_cons_of_mem _ (List.mem_cons_of_mem _ ht)))
      (hp.filter _ he nofun)
  | filterWith _ _ head _ ih ih' =>
    intro he
    have htail := fun t ht ↦
      hts t (List.mem_cons_of_mem _ (List.mem_cons_of_mem _ (List.mem_cons_of_mem _ ht)))
    exact ih' (fun t ht ↦ htail t (head.rest_suffix.subset ht)) (hp.filter _ he (ih htail))
  | filterAtEnd => exact fun he ↦ hp.filter _ he nofun
  | noArguments | listEnd | noElements => exact nofun
  | someArguments _ head _ _ ih ih' | element _ head _ _ ih ih' =>
    exact List.forall_mem_cons.2 ⟨ih hts, ih' fun t ht ↦ hts t (head.rest_suffix.subset ht)⟩
  | listMore _ head _ ih ih' =>
    have htail := fun t ht ↦ hts t (List.mem_cons_of_mem _ ht)
    exact List.forall_mem_cons.2 ⟨ih htail, ih' fun t ht ↦ htail t (head.rest_suffix.subset ht)⟩
  | elementComma _ head _ _ ih ih' =>
    exact List.forall_mem_cons.2
      ⟨ih hts, ih' fun t ht ↦ hts t (head.rest_suffix.subset (List.mem_cons_of_mem _ ht))⟩
  | noChoice _ _ ih | single _ ih => exact ih hts
  | choice head _ middle _ _ ih ih' ih'' =>
    have hmiddle := fun t ht ↦ hts t (head.rest_suffix.subset (List.mem_cons_of_mem _ ht))
    have hlast := fun t ht ↦ hmiddle t (middle.rest_suffix.subset (List.mem_cons_of_mem _ ht))
    exact hp.ternary _ _ _ (ih hts) (ih' hmiddle) (ih'' hlast)
  | chain head _ ih ih' => exact ih' (fun t ht ↦ hts t (head.rest_suffix.subset ht)) (ih hts)
  | chainMore _ head _ ih ih' =>
    intro hleft
    have htail := fun t ht ↦ hts t (List.mem_cons_of_mem _ ht)
    exact ih' (fun t ht ↦ htail t (head.rest_suffix.subset ht)) (hp.binary _ _ _ hleft (ih htail))
  | parentheses _ _ _ ih => exact ih fun t ht ↦ hts t (List.mem_cons_of_mem _ ht)
  | array _ _ ih => exact hp.array (ih fun t ht ↦ hts t (List.mem_cons_of_mem _ ht))
  | unary _ _ _ ih => exact hp.unary _ _ (ih fun t ht ↦ hts t (List.mem_cons_of_mem _ ht))
  | number hkind hv => exact hp.number (hts _ List.mem_cons_self) hkind hv
  | string hkind => exact hp.string (hts _ List.mem_cons_self) hkind
  | word hkind => exact hp.word (hts _ List.mem_cons_self) hkind

/-! ## What reading makes -/

def Parsed : Expr → Prop
  | name n => isPlainName n = true
  | comma _ => False
  | call f _ => ∀ n, f ≠ name n
  | filter _ es => es ≠ []
  | _ => True

theorem Parsed.shaped {e : Expr} (h : e.Parsed) : e.Shaped := by
  cases e with
  | call | filter => exact h
  | _ => trivial

/-! ## Nodes that reading makes -/

/-- Every node that reading makes of lexemes has a property, whatever its parts are. -/
structure OfReading (p : Expr → Prop) : Prop where
  /-- A word is a literal or a name. -/
  word {s : String} (h : isName s.toList = true) : p (Grammar.word s)
  /-- A number is a literal. -/
  number {cs : List Char} {v : Literal} (h : cs.head?.any Char.isDigit = true)
    (hv : Literal.ofNumber? cs = some v) : p (literal v)
  /-- A string is a literal. -/
  string (s : String) : p (string s)
  /-- An operand with an operator before it. -/
  unary (op : UnaryOp) (a : Expr) : p (unary op a)
  /-- Operands with an operator between them. -/
  binary (op : BinaryOp) (l r : Expr) : p (binary op l r)
  /-- A choice. -/
  ternary (c a b : Expr) : p (ternary c a b)
  /-- An array. -/
  array (es : List Expr) : p (array es)
  /-- A call, in which a name has become a string. -/
  call {f : Expr} (hf : ∀ n, f ≠ name n) (es : List Expr) : p (call f es)
  /-- A filter and what is piped into it. -/
  filter (n : String) (e : Expr) (es : List Expr) : p (filter n (e :: es))

theorem all_word {p : Expr → Prop} {s : String} : (Grammar.word s).All p ↔ p (Grammar.word s) := by
  rw [Grammar.word]
  split
  · exact all_literal
  · exact all_name

namespace OfReading

variable {p : Expr → Prop} {e f : Expr} {es : List Expr}

theorem all_callee (hp : OfReading p) (h : f.All p) : (Grammar.callee f).All p := by
  cases f with
  | name n => exact all_literal.2 (hp.string n)
  | _ => exact h

theorem all_call (hp : OfReading p) (h : f.All p) (h' : ∀ e ∈ es, e.All p) :
    (Expr.call (Grammar.callee f) es).All p := by
  have hcallee : ∀ n, Grammar.callee f ≠ name n := by
    cases f <;> exact nofun
  exact Expr.all_call.2 ⟨hp.call hcallee es, hp.all_callee h, h'⟩

theorem all_filter (hp : OfReading p) (n : String) (h : e.All p) (h' : ∀ e ∈ es, e.All p) :
    (Expr.filter n (e :: es)).All p :=
  Expr.all_filter.2 ⟨hp.filter n e es, List.forall_mem_cons.2 ⟨h, h'⟩⟩

theorem keptByRules (hp : OfReading p) : KeptByRules Terminal.Lexical (·.All p) where
  number ht hkind hv := by
    rw [Terminal.Lexical, hkind] at ht
    exact all_literal.2 (hp.number ht hv)
  string _ _ := all_literal.2 (hp.string _)
  word ht hkind := by
    rw [Terminal.Lexical, hkind] at ht
    exact all_word.2 (hp.word ht)
  unary op _ ha := all_unary.2 ⟨hp.unary op _, ha⟩
  binary op _ _ hl hr := all_binary.2 ⟨hp.binary op _ _, hl, hr⟩
  ternary _ _ _ hc ha hb := all_ternary.2 ⟨hp.ternary _ _ _, hc, ha, hb⟩
  array hes := all_array.2 ⟨hp.array _, hes⟩
  call hf hes := hp.all_call hf hes
  filter n he hes := hp.all_filter n he hes

theorem all_of_derives (hp : OfReading p) {atEnd : Option String} {d : Nat} {ph : Phrase}
    {ts rest : List Terminal} (h : Derives atEnd d ph ts rest) (hts : ∀ t ∈ ts, t.Lexical) :
    ph.Holds (·.All p) :=
  hp.keptByRules.holds_of_derives h hts

end OfReading

theorem parsed_ofReading : OfReading Parsed where
  word {s} h := by
    rw [Grammar.word]
    split
    · trivial
    · next hkeyword => exact show isPlainName s = true by rw [isPlainName, h, hkeyword]; rfl
  number _ _ := trivial
  string _ := trivial
  unary _ _ := trivial
  binary _ _ _ := trivial
  ternary _ _ _ := trivial
  array _ := trivial
  call hf _ := hf
  filter _ _ _ := List.cons_ne_nil _ _

theorem parsed_of_ofString {s : String} {e : Expr} (h : ofString s = .ok e) : e.All Parsed := by
  obtain ⟨ts, d, hlexes, -, hder⟩ := derives_of_ofString h
  exact parsed_ofReading.all_of_derives hder hlexes.lexical

/-! ## Trees of names -/

/-- The leaves of an expression are variables, and so are the functions that are called by name; the
names of its filters are spelled like names. -/
inductive NamesOnly : Expr → Prop where
  | name {n : String} : NamesOnly (name n)
  | unary {op : UnaryOp} {a : Expr} (ha : NamesOnly a) : NamesOnly (unary op a)
  | binary {op : BinaryOp} {l r : Expr} (hl : NamesOnly l) (hr : NamesOnly r) :
      NamesOnly (binary op l r)
  | ternary {c a b : Expr} (hc : NamesOnly c) (ha : NamesOnly a) (hb : NamesOnly b) :
      NamesOnly (ternary c a b)
  | array {es : List Expr} (hes : ∀ e ∈ es, NamesOnly e) : NamesOnly (array es)
  | callByName {n : String} {es : List Expr} (hn : isPlainName n = true)
      (hes : ∀ e ∈ es, NamesOnly e) : NamesOnly (call (string n) es)
  | call {f : Expr} {es : List Expr} (hf : NamesOnly f) (hes : ∀ e ∈ es, NamesOnly e) :
      NamesOnly (call f es)
  | filter {n : String} {es : List Expr} (hn : isName n.toList = true)
      (hes : ∀ e ∈ es, NamesOnly e) : NamesOnly (filter n es)

theorem isShown_of_isNameChar {c : Char} (h : isNameChar c = true) : isShown c = true := by
  have hrange := toNat_of_isNameChar h
  obtain ⟨ranges, hranges⟩ : ∃ ranges, unprintableBasic =
      (0x0000, 0x001F) :: (0x007F, 0x00A0) :: ranges := ⟨_, rfl⟩
  have hprintable : isUnprintable c = false := by
    have hlast : decide (c.toNat ≤ 0x001F) = false := decide_eq_false (by omega)
    have hfirst : decide (0x007F ≤ c.toNat) = false := decide_eq_false (by omega)
    rw [isUnprintable, if_pos (by omega), hranges, inRanges, inRanges, hlast, hfirst]
    exact Bool.and_false _
  have hletter : escapeLetter? c = none := by
    rw [escapeLetter?.eq_def]
    split <;> first | rfl | exact absurd h (by decide)
  rw [isShown, escaped, hletter]
  simp [hprintable]

theorem isShown_of_isPlainName {n : String} (h : isPlainName n = true) :
    ∀ c ∈ n.toList, isShown c = true := by
  intro c hc
  have hname := isName_of_isPlainName h
  cases hcs : n.toList with
  | nil => exact absurd hc (by simp [hcs])
  | cons d ds =>
    rw [hcs, isName, Bool.and_eq_true] at hname
    rw [hcs] at hc
    rcases List.mem_cons.1 hc with rfl | hc
    · exact isShown_of_isNameChar (isNameChar_of_isNameStart hname.1)
    · exact isShown_of_isNameChar (List.all_eq_true.1 hname.2 c hc)

theorem NamesOnly.spelled {e : Expr} (h : NamesOnly e) (h' : e.All Parsed) : e.All Spelled := by
  induction h with
  | name => exact all_name.2 h'.node
  | unary _ ih =>
    obtain ⟨-, ha⟩ := all_unary.1 h'
    exact all_unary.2 ⟨trivial, ih ha⟩
  | binary _ _ ih ih' =>
    obtain ⟨-, hl, hr⟩ := all_binary.1 h'
    exact all_binary.2 ⟨trivial, ih hl, ih' hr⟩
  | ternary _ _ _ ih ih' ih'' =>
    obtain ⟨-, hc, ha, hb⟩ := all_ternary.1 h'
    exact all_ternary.2 ⟨trivial, ih hc, ih' ha, ih'' hb⟩
  | array _ ih =>
    obtain ⟨-, hes⟩ := all_array.1 h'
    exact all_array.2 ⟨trivial, fun e he ↦ ih e he (hes e he)⟩
  | callByName hn _ ih =>
    obtain ⟨-, -, hes⟩ := all_call.1 h'
    have hcallee : ∀ c ∈ _, isShown c = true := isShown_of_isPlainName hn
    exact all_call.2 ⟨trivial, all_literal.2 hcallee, fun e he ↦ ih e he (hes e he)⟩
  | call _ _ ih ih' =>
    obtain ⟨-, hf, hes⟩ := all_call.1 h'
    exact all_call.2 ⟨trivial, ih hf, fun e he ↦ ih' e he (hes e he)⟩
  | filter hn _ ih =>
    obtain ⟨-, hes⟩ := all_filter.1 h'
    exact all_filter.2 ⟨isFilterName_of_isName hn, fun e he ↦ ih e he (hes e he)⟩

/-- If an expression of names has been read, it can be read back as soon as it has no call where an
operand has to stand. -/
theorem NamesOnly.printable {e : Expr} (h : NamesOnly e) (h' : e.All Parsed)
    (h'' : e.All BareCallFree) : e.Printable := by
  have hspelled := h.spelled h'
  clear h
  rw [Printable]
  induction h' with
  | intro node _ ih =>
    exact .intro ⟨hspelled.node, node.shaped, h''.node⟩ fun e he ↦
      ih e he (h''.child he) (hspelled.child he)

/-! ## Printed and read again -/

/-- An expression of names that has been read is read back from its infix form exactly when no
operand of an operator and no condition of a choice is a call and there are no more levels than
there may be; without such a call, it is refused for nothing but its levels. -/
theorem ofString_text_eq_ok_iff {s : String} {e : Expr} (h : ofString s = .ok e)
    (hnames : NamesOnly e) :
    (ofString e.text = .ok e ↔ e.All BareCallFree ∧ e.levels ≤ maxNesting) ∧
      (e.All BareCallFree → Yields e.text e) := by
  have hparsed := parsed_of_ofString h
  have hspelled := hnames.spelled hparsed
  have hlexes : Lexes e.text.toList e.terminals := by
    rw [text, String.toList_ofList]
    exact lexes_chars hspelled
  have hback : e.All BareCallFree → Derives (some "") e.levels (.expression e) e.terminals [] :=
    fun hfree ↦ (hnames.printable hparsed hfree).derives_terminals.mono
  refine ⟨⟨fun hread ↦ ?_, ?_⟩, fun hfree ↦ ?_⟩
  -- the text is cut in one way only, so what is read back is derived from the terminals of the tree
  · obtain ⟨ts, d, hlexes', -, hder⟩ := derives_of_ofString hread
    obtain rfl := hlexes.unique hlexes'
    have hfree := bareCallFree_of_derives hspelled (hparsed.mono fun _ ↦ Parsed.shaped) hder
    refine ⟨hfree, Nat.le_of_not_lt fun hlt ↦ ?_⟩
    obtain ⟨t, herror⟩ := (ofString_of_derives hlexes (hback hfree)).2 hlt
    cases hread.symm.trans herror
  · rintro ⟨hfree, hlevels⟩
    exact (ofString_of_derives hlexes (hback hfree)).1 hlevels
  · exact yields_of_derives hlexes (hback hfree)

theorem yields_text_of_filtered_call :
    let e := filter "g" [call (string "f") [name "x"]]
    ofString "f(x)|g" = .ok e ∧ Yields e.text e := by
  intro e
  have hx := Lexes.name (s := "x") rfl
  have hlexes : Lexes "f(x)|g".toList [⟨.identifier, "f"⟩, symbol "(", ⟨.identifier, "x"⟩,
      symbol ")", symbol "|", ⟨.identifier, "g"⟩] :=
    (Lexes.name (s := "f") rfl).append (breaks_cons rfl _) (hx.parentheses
      (.symbol_append (s := "|") (by decide) (Lexeme.joins_cons rfl _) (.name (s := "g") rfl)))
  have hstands : Stands 1 (name "x") [⟨.identifier, "x"⟩] :=
    .of_lexes ((Derives.operand_name rfl []).expression_of_operand closes_nil) hx
  have hsuffixes := Derives.call (e := name "f") (t := symbol "(") rfl
    ((StandsList.cons hstands .nil).arguments [symbol "|", ⟨.identifier, "g"⟩])
    (.filter (t := symbol "|") rfl rfl (.noSuffix rfl rfl))
  have hder := Derives.expression ((Derives.operand_name rfl _).ternary_of_operand
    (noOperator_symbol (by decide) _) rfl) hsuffixes
  have hread : ofString "f(x)|g" = .ok e := (ofString_of_derives hlexes hder.mono).1 (by decide)
  have hfree : e.All BareCallFree := by
    simp [e, string, BareCallFree]
  have hnames : NamesOnly e := .filter rfl (List.forall_mem_singleton.2
    (.callByName rfl (List.forall_mem_singleton.2 .name)))
  exact ⟨hread, (ofString_text_eq_ok_iff hread hnames).2 hfree⟩

/-- The opposite of a call is printed as the call of an opposite. -/
theorem not_yields_text_of_negated_call :
    let e := unary .negate (call (string "f") [name "x"])
    ofString "-(f(x))" = .ok e ∧ NamesOnly e ∧ ¬ Yields e.text e := by
  intro e
  have hx := Lexes.name (s := "x") rfl
  have hstands : Stands 1 (name "x") [⟨.identifier, "x"⟩] :=
    .of_lexes ((Derives.operand_name rfl []).expression_of_operand closes_nil) hx
  have harguments := (StandsList.cons hstands .nil).arguments
  have hcall := (Lexes.name (s := "f") rfl).append (breaks_cons rfl _) (hx.parentheses .nil)
  have hstands' : Stands 2 (call (string "f") [name "x"]) _ :=
    .of_lexes ((Derives.operand_name (s := "f") rfl _).expression_call (harguments []) rfl rfl)
      hcall
  have hlexes : Lexes "-(f(x))".toList _ :=
    .symbol_append (s := "-") (by decide) (Lexeme.joins_cons rfl _) (hcall.parentheses .nil)
  have hnegate : UnaryOp.ofSpelling? (symbol "-").text = some .negate := rfl
  have hder := (Derives.unary rfl hnegate (hstands'.parentheses [])).expression_of_operand
    closes_nil
  have hnames : NamesOnly e := .unary (.callByName rfl (List.forall_mem_singleton.2 .name))
  refine ⟨(ofString_of_derives hlexes hder.mono).1 (by decide), hnames, ?_⟩
  -- the operand is the name alone, and the argument list is left to the expression in parentheses
  have hinner := (Derives.unary rfl hnegate (Derives.operand_name (s := "f") rfl _)).expression_call
    (harguments [symbol ")"]) rfl rfl
  have hder' := (Derives.parentheses (t := symbol "(") rfl hinner rfl).expression_of_operand
    closes_nil
  have hlexes' : Lexes e.text.toList e.terminals := by
    rw [text, String.toList_ofList]
    exact lexes_chars (hnames.spelled (by simp [e, string, Parsed]; decide))
  have hread := (ofString_of_derives hlexes' hder'.mono).1 (by decide)
  rintro (h | ⟨t, h⟩)
  · injection hread.symm.trans h with heq
    simp [e] at heq
  · cases hread.symm.trans h

end Expr

end TemplateExpr
