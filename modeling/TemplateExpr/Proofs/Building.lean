import TemplateExpr.Expr.Infix
import TemplateExpr.Proofs.Context
import TemplateExpr.Proofs.Lexing

/-!
# Building derivations

From the parts of an expression to the whole of it: an operand goes up through all the levels of
operators, a binary operator is found at the one level that has it, and expressions with commas
between them make a list. What has to be known each time is what comes next, since every level on
the way up looks at it.

## Lookahead

Two facts about terminals keep the parts apart. A terminal that closes something continues nothing
(`closes_symbol`), and no expression that comes from a text begins with a terminal that closes
something (`Derives.begins_eq_false`). The first one is asked where a part ends, the second one
where a list might be empty. Which terminals those are is a list of four delimiters (`closers`), so
both facts are decided by looking through it.

## Parts that do not know their place

What comes next is not known while a part is built. So a part is kept as the terminals that are an
expression before anything that does not continue it (`Stands`), and lists of parts likewise
(`StandsList`). Only the rules that put parts together fill in what comes after them.
-/

namespace TemplateExpr

open Terminal

/-! ## Spellings -/

namespace UnaryOp

theorem ofSpelling?_spelling (op : UnaryOp) : ofSpelling? op.spelling = some op := by
  cases op <;> rfl

theorem spelling_of_ofSpelling? {s : String} {op : UnaryOp} (h : ofSpelling? s = some op) :
    op.spelling = s := by
  rw [ofSpelling?.eq_def] at h
  split at h <;> cases h <;> rfl

theorem spelling_mem_symbols (op : UnaryOp) : op.spelling ∈ Lexeme.symbols := by
  cases op <;> decide

end UnaryOp

namespace BinaryOp

theorem spelling_mem_levels (op : BinaryOp) : (op.spelling, op) ∈ levels.flatten := by
  cases op <;> decide

theorem spelling_mem_symbols (op : BinaryOp) : op.spelling ∈ Lexeme.symbols := by
  cases op <;> decide

end BinaryOp

/-! ## The terminal that comes next -/

namespace Terminal

theorem Lexical.spells_eq_false {t : Terminal} (h : t.Lexical) (hkind : t.kind ≠ .symbol)
    {s : String} (hs : s.toList.head?.any Text.isNameChar = false) : t.spells s = false := by
  obtain ⟨kind, text⟩ := t
  cases kind with
  | symbol => exact absurd rfl hkind
  | identifier =>
    refine spells_eq_false_of_text_ne ?_
    rintro rfl
    change Text.isName text.toList = true at h
    cases hcs : text.toList with
    | nil => rw [hcs] at h; cases h
    | cons c cs =>
      rw [hcs, Text.isName, Bool.and_eq_true] at h
      rw [hcs, List.head?_cons, Option.any_some, Text.isNameChar_of_isNameStart h.1] at hs
      cases hs
  | number =>
    refine spells_eq_false_of_text_ne ?_
    rintro rfl
    change text.toList.head?.any Char.isDigit = true at h
    rw [Option.any_eq_true] at h
    obtain ⟨c, hc, hdigit⟩ := h
    rw [hc, Option.any_some, Text.isNameChar_of_isDigit hdigit] at hs
    cases hs
  | string | eof => rfl

/-- A terminal that spells something else spells no operator of a level. -/
theorem operator?_eq_none {operators : List (String × BinaryOp)} {t : Terminal} {s : String}
    (ht : t.spells s) (hs : s ∉ operators.map Prod.fst) (ts : List Terminal) :
    operator? operators (t :: ts) = none := by
  rw [operator?, Option.map_eq_none_iff, List.find?_eq_none]
  rintro ⟨lexeme, op⟩ hmem
  have hne : s ≠ lexeme := by
    rintro rfl
    exact hs (List.mem_map_of_mem hmem)
  dsimp only
  rw [begins_cons, spells_eq_false ht hne]
  exact Bool.false_ne_true

/-- A terminal that spells an operator of a level is that operator, if no other one of the level is
spelled in the same way. -/
theorem operator?_eq_some {operators : List (String × BinaryOp)} {t : Terminal} {s : String}
    {op : BinaryOp} (ht : t.spells s) (hop : (s, op) ∈ operators)
    (hnodup : (operators.map Prod.fst).Nodup) (ts : List Terminal) :
    operator? operators (t :: ts) = some op := by
  induction operators with
  | nil => exact absurd hop List.not_mem_nil
  | cons p operators ih =>
    obtain ⟨lexeme, op'⟩ := p
    rw [List.map_cons, List.nodup_cons] at hnodup
    rw [operator?, List.find?_cons]
    dsimp only
    rw [begins_cons]
    rcases List.mem_cons.1 hop with heq | hmem
    · cases heq
      rw [ht]
      rfl
    · have hne : s ≠ lexeme := by
        rintro rfl
        exact hnodup.1 (List.mem_map.2 ⟨(s, op), hmem, rfl⟩)
      rw [spells_eq_false ht hne]
      exact ih hmem hnodup.2

end Terminal

/-! ## Terminals that close a phrase -/

/-- The delimiters that close a phrase or stand after it. -/
def closers : List String := [")", "]", ",", ":"]

theorem closes_of_spells {t : Terminal} {s : String} (ht : t.spells s) (hs : s ∈ closers)
    (ts : List Terminal) : Closes (t :: ts) := by
  have hother : ∀ s ∈ closers, s ≠ "(" ∧ s ≠ "|" ∧ s ≠ "?" ∧
      ∀ operators ∈ BinaryOp.levels, s ∉ operators.map Prod.fst := by decide
  obtain ⟨hcall, hpipe, hquestion, hoperator⟩ := hother s hs
  exact ⟨spells_eq_false ht hcall, spells_eq_false ht hpipe, spells_eq_false ht hquestion,
    fun operators hmem ↦ operator?_eq_none ht (hoperator operators hmem) ts⟩

theorem closes_symbol {s : String} (hs : s ∈ closers) (ts : List Terminal) :
    Closes (symbol s :: ts) :=
  closes_of_spells (t := symbol s) (decide_eq_true rfl) hs ts

theorem isName_of_isPlainName {s : String} (h : Expr.isPlainName s = true) :
    Text.isName s.toList = true := by
  rw [Expr.isPlainName, Bool.and_eq_true] at h
  exact h.1

/-- Whether a phrase begins with an operand. -/
def Phrase.beginsWithOperand : Phrase → Bool
  | expression _ | ternary _ | chain .. | operand _ => true
  | _ => false

def NoOperator (ts : List Terminal) : Prop :=
  ∀ operators ∈ BinaryOp.levels, operator? operators ts = none

theorem noOperator_of_spells {t : Terminal} {s : String} (ht : t.spells s)
    (hs : s ∈ ["(", "|", "?"]) (ts : List Terminal) : NoOperator (t :: ts) := by
  have hother : ∀ s ∈ ["(", "|", "?"], ∀ operators ∈ BinaryOp.levels,
      s ∉ operators.map Prod.fst := by decide
  exact fun operators hmem ↦ operator?_eq_none ht (hother s hs operators hmem) ts

theorem noOperator_symbol {s : String} (hs : s ∈ ["(", "|", "?"]) (ts : List Terminal) :
    NoOperator (symbol s :: ts) :=
  noOperator_of_spells (t := symbol s) (decide_eq_true rfl) hs ts

namespace Derives

variable {atEnd : Option String} {d d' : Nat} {e e' : Expr} {ts us rest : List Terminal}

/-! ## Through the levels of operators -/

theorem chain_of_operand (h : Derives atEnd d (.operand e) ts rest)
    (levels : List (List (String × BinaryOp)))
    (hrest : ∀ operators ∈ levels, operator? operators rest = none) :
    Derives atEnd d (.chain levels e) ts rest := by
  induction levels with
  | nil => exact .single h
  | cons operators tighter ih =>
    have hhead := ih fun l hl ↦ hrest l (List.mem_cons_of_mem _ hl)
    -- a level that has no operator opens no levels of its own
    have hchain := Derives.chain hhead (.chainEnd (hrest operators List.mem_cons_self))
    rwa [Nat.max_zero] at hchain

/-- Two operands with an operator between them are a chain of any levels that have the operator. -/
theorem chain_of_operands {op : BinaryOp} {s : String} {t : Terminal}
    (h : Derives atEnd d (.operand e) ts (t :: us)) (h' : Derives atEnd d' (.operand e') us rest)
    (ht : t.spells s) {levels : List (List (String × BinaryOp))} (hop : (s, op) ∈ levels.flatten)
    (hnodup : (levels.flatten.map Prod.fst).Nodup)
    (hrest : ∀ operators ∈ levels, operator? operators rest = none) :
    Derives atEnd (max d d') (.chain levels (.binary op e e')) ts rest := by
  induction levels with
  | nil => exact absurd hop List.not_mem_nil
  | cons operators tighter ih =>
    have hend : Derives atEnd 0 (.chainRest operators tighter (.binary op e e') (.binary op e e'))
        rest rest := .chainEnd (hrest operators List.mem_cons_self)
    have htighter : ∀ l ∈ tighter, operator? l rest = none :=
      fun l hl ↦ hrest l (List.mem_cons_of_mem _ hl)
    rw [List.flatten_cons, List.map_append, List.nodup_append] at hnodup
    obtain ⟨hnodup, hnodup', hdisjoint⟩ := hnodup
    rcases List.mem_append.1 hop with hop | hop
    -- the operator is one of this level, so no tighter one has it
    · have hnone : ∀ l ∈ tighter, operator? l (t :: us) = none := by
        refine fun l hl ↦ operator?_eq_none ht (fun hmem ↦ ?_) us
        refine hdisjoint s (List.mem_map_of_mem hop) s ?_ rfl
        rw [List.map_flatten, List.mem_flatten]
        exact ⟨_, List.mem_map_of_mem hl, hmem⟩
      have hmore := Derives.chainMore (operator?_eq_some ht hop hnodup us)
        (h'.chain_of_operand tighter htighter) hend
      rw [Nat.max_zero] at hmore
      exact .chain (h.chain_of_operand tighter hnone) hmore
    · have hchain := Derives.chain (ih hop hnodup' htighter) hend
      rwa [Nat.max_zero] at hchain

theorem ternary_of_operand (h : Derives atEnd d (.operand e) ts rest) (hrest : NoOperator rest)
    (hend : begins rest "?" = false) : Derives atEnd d (.ternary e) ts rest :=
  .noChoice (h.chain_of_operand BinaryOp.levels hrest) hend

/-- An operand with nothing that continues it is an expression. -/
theorem expression_of_operand (h : Derives atEnd d (.operand e) ts rest) (hrest : Closes rest) :
    Derives atEnd (d + 1) (.expression e) ts rest := by
  have hexpr := Derives.expression (h.ternary_of_operand hrest.operator hrest.question)
    (.noSuffix hrest.parenthesis hrest.pipe)
  rwa [Nat.max_zero] at hexpr

/-- Two operands with an operator between them and nothing that continues them are an expression. -/
theorem expression_of_operands {op : BinaryOp} {s : String} {t : Terminal}
    (h : Derives atEnd d (.operand e) ts (t :: us)) (h' : Derives atEnd d' (.operand e') us rest)
    (ht : t.spells s) (hop : (s, op) ∈ BinaryOp.levels.flatten) (hrest : Closes rest) :
    Derives atEnd (max d d' + 1) (.expression (.binary op e e')) ts rest := by
  have hchain := h.chain_of_operands h' ht hop (by decide) hrest.operator
  have hexpr := Derives.expression (.noChoice hchain hrest.question)
    (.noSuffix hrest.parenthesis hrest.pipe)
  rwa [Nat.max_zero] at hexpr

/-! ## Operators and choices -/

theorem expression_choice {d'' : Nat} {a b : Expr} {vs : List Terminal}
    (h : Derives atEnd d (.operand e) ts (symbol "?" :: us))
    (h' : Derives atEnd d' (.expression a) us (symbol ":" :: vs))
    (h'' : Derives atEnd d'' (.expression b) vs rest) (hcall : begins rest "(" = false)
    (hpipe : begins rest "|" = false) :
    Derives atEnd (max d (max d' d'') + 1) (.expression (.ternary e a b)) ts rest := by
  have hchain := h.chain_of_operand BinaryOp.levels
    (noOperator_symbol (by decide) us)
  have hexpr := Derives.expression (.choice hchain rfl h' rfl h'') (.noSuffix hcall hpipe)
  rwa [Nat.max_zero] at hexpr

theorem operand_name {s : String} (hs : Expr.isPlainName s = true) (rest : List Terminal) :
    Derives atEnd 0 (.operand (.name s)) (⟨.identifier, s⟩ :: rest) rest := by
  rw [Expr.isPlainName, Bool.and_eq_true, Option.isNone_iff_eq_none] at hs
  have hother : ∀ lexeme : String, Text.isName lexeme.toList = false →
      spells ⟨.identifier, s⟩ lexeme = false := by
    intro lexeme hlexeme
    refine spells_eq_false_of_text_ne ?_
    rintro rfl
    cases hlexeme.symm.trans hs.1
  have hword : Grammar.word s = .name s := by rw [Grammar.word, hs.2]
  exact hword ▸ .word rfl (hother "(" rfl) (hother "[" rfl)

/-! ## Calls and filters -/

theorem expression_call {es : List Expr} (h : Derives atEnd d (.operand e) ts (symbol "(" :: us))
    (h' : Derives atEnd d' (.arguments es) us rest) (hcall : begins rest "(" = false)
    (hpipe : begins rest "|" = false) :
    Derives atEnd (max d d' + 1) (.expression (.call (Grammar.callee e) es)) ts rest := by
  have htail := Derives.call (t := symbol "(") (e := e) rfl h' (.noSuffix hcall hpipe)
  rw [Nat.max_zero] at htail
  exact .expression
    (h.ternary_of_operand (noOperator_symbol (by decide) us) rfl) htail

theorem expression_filterWith {es : List Expr} (name : Terminal)
    (h : Derives atEnd d (.operand e) ts (symbol "|" :: name :: symbol "(" :: us))
    (h' : Derives atEnd d' (.arguments es) us rest) (hcall : begins rest "(" = false)
    (hpipe : begins rest "|" = false) :
    Derives atEnd (max d d' + 1) (.expression (.filter name.text (e :: es))) ts rest := by
  have htail : Derives atEnd (max d' 0) (.suffixes e (.filter name.text (e :: es)))
      (symbol "|" :: name :: symbol "(" :: us) rest :=
    .filterWith rfl rfl h' (.noSuffix hcall hpipe)
  rw [Nat.max_zero] at htail
  exact .expression
    (h.ternary_of_operand (noOperator_symbol (by decide) _) rfl) htail

/-! ## What an expression begins with -/

/-- What an expression begins with closes nothing, if it comes from a text. -/
theorem begins_eq_false {p : Phrase} (h : Derives atEnd d p ts rest)
    (hp : p.beginsWithOperand = true) (hts : ∀ t ∈ ts.head?, t.Lexical) {s : String}
    (hs : s ∈ closers) : begins ts s = false := by
  have hall : ∀ s ∈ closers, "(" ≠ s ∧ "[" ≠ s ∧ UnaryOp.ofSpelling? s = none ∧
      s.toList.head?.any Text.isNameChar = false := by decide
  obtain ⟨hparen, hbracket, hunary, hfirst⟩ := hall s hs
  induction h with
  | expression _ _ ih | noChoice _ _ ih | choice _ _ _ _ _ ih | chain _ _ ih | single _ ih =>
    exact ih rfl hts
  | parentheses ht => exact spells_eq_false ht hparen
  | array ht => exact spells_eq_false ht hbracket
  | @unary _ _ _ t _ _ hkind hop =>
    refine spells_eq_false_of_text_ne ?_
    rintro rfl
    cases hunary.symm.trans hop
  | number hkind => exact (hts _ rfl).spells_eq_false (by simp [hkind]) hfirst
  | string hkind => exact (hts _ rfl).spells_eq_false (by simp [hkind]) hfirst
  | word hkind => exact (hts _ rfl).spells_eq_false (by simp [hkind]) hfirst
  | _ => cases hp

end Derives

/-! ## Expressions in any place -/

/-- Some terminals are an expression wherever nothing that comes after them continues it. -/
structure Stands (d : Nat) (e : Expr) (ts : List Terminal) : Prop where
  /-- They are an expression. -/
  derives : Derives none d (.expression e) ts []
  /-- They begin with nothing that closes a phrase around them. -/
  opens : ∀ s ∈ closers, begins ts s = false

namespace Stands

variable {d d' : Nat} {e e' : Expr} {ts us rest : List Terminal}

theorem of_lexes {cs : List Char} (h : Derives none d (.expression e) ts [])
    (hts : Lexes cs ts) : Stands d e ts where
  derives := h
  opens _ hs := h.begins_eq_false rfl (fun t ht ↦ hts.lexical t (List.mem_of_mem_head? ht)) hs

theorem derives_append (h : Stands d e ts) (hrest : Closes rest) :
    Derives none d (.expression e) (ts ++ rest) rest :=
  h.derives.expression_append hrest

theorem begins_append (h : Stands d e ts) {s : String} (hs : s ∈ closers) (us : List Terminal) :
    begins (ts ++ us) s = false := by
  rw [begins_append_of_ne_nil (h.derives.ne_nil_of_least rfl), h.opens s hs]

theorem parentheses (h : Stands d e ts) (rest : List Terminal) :
    Derives none d (.operand e) (symbol "(" :: (ts ++ symbol ")" :: rest)) rest :=
  .parentheses rfl (h.derives_append (closes_symbol (by decide) rest)) rfl

end Stands

/-! ## Lists of expressions -/

theorem intercalate_cons {α : Type} (sep xs : List α) (xss : List (List α)) :
    sep.intercalate (xs :: xss) = xs ++ xss.flatMap (sep ++ ·) := by
  induction xss generalizing xs with
  | nil => simp
  | cons ys xss ih =>
    rw [List.intercalate_cons_cons, ih, List.flatMap_cons, List.append_assoc, List.append_assoc]

/-- The rest of a list closes the expression before it, if what comes after the list does. -/
theorem Closes.listRest {rest : List Terminal} (hrest : Closes rest) (tss : List (List Terminal)) :
    Closes (tss.flatMap ([symbol ","] ++ ·) ++ rest) := by
  cases tss with
  | nil => exact hrest
  | cons ts tss =>
    rw [List.flatMap_cons, List.append_assoc, List.append_assoc]
    exact closes_symbol (by decide) _

/-- Lists of terminals are expressions one by one, each wherever nothing continues it. -/
inductive StandsList : Nat → List Expr → List (List Terminal) → Prop where
  | nil : StandsList 0 [] []
  | cons {d d' : Nat} {e : Expr} {es : List Expr} {ts : List Terminal}
      {tss : List (List Terminal)} (head : Stands d e ts) (tail : StandsList d' es tss) :
      StandsList (max d d') (e :: es) (ts :: tss)

namespace StandsList

variable {d : Nat} {es : List Expr} {tss : List (List Terminal)} {rest : List Terminal}

theorem listRest (h : StandsList d es tss) (hrest : Closes rest)
    (hcomma : begins rest "," = false) :
    Derives none d (.listRest es) (tss.flatMap ([symbol ","] ++ ·) ++ rest) rest := by
  induction h with
  | nil => exact .listEnd hcomma
  | cons head _ ih =>
    rw [List.flatMap_cons, List.append_assoc, List.append_assoc]
    exact .listMore rfl (head.derives_append (hrest.listRest _)) ih

theorem arguments (h : StandsList d es tss) (rest : List Terminal) :
    Derives none d (.arguments es) ([symbol ","].intercalate tss ++ symbol ")" :: rest) rest := by
  have hclose : Closes (symbol ")" :: rest) := closes_symbol (by decide) rest
  cases h with
  | nil => exact .noArguments rfl
  | cons head tail =>
    rw [intercalate_cons, List.append_assoc]
    exact .someArguments (head.begins_append (by decide) _)
      (head.derives_append (hclose.listRest _))
      (tail.listRest hclose rfl) rfl

theorem elements (h : StandsList d es tss) (rest : List Terminal) :
    Derives none d (.elements es) ([symbol ","].intercalate tss ++ symbol "]" :: rest) rest := by
  induction h with
  | nil => exact .noElements rfl
  | @cons _ _ _ _ ts tss head tail ih =>
    -- the last element has no comma after it
    cases tail with
    | nil =>
      rw [List.intercalate_singleton]
      exact .element (head.begins_append (by decide) _)
        (head.derives_append (closes_symbol (by decide) rest)) rfl ih
    | cons head' tail =>
      rw [List.intercalate_cons_cons, List.append_assoc, List.append_assoc]
      exact .elementComma (head.begins_append (by decide) _)
        (head.derives_append (closes_symbol (by decide) _)) rfl ih

end StandsList

end TemplateExpr
