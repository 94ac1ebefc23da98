import TemplateExpr.Proofs.Inversion
import TemplateExpr.Proofs.RoundTrip

/-!
# What a printed tree is read as

A printed expression is read back as itself only if no call in it stands where an operand has to
(`Expr.bareCallFree_of_derives`). A call that is printed there is no operand: reading takes the
function for the operand and leaves the argument list for later, where it either belongs to more
than the function or comes too soon.

## Whatever is made of the terminals

The proof goes along a derivation from the terminals of the tree, whatever tree it makes of them. It
keeps to the terminals of each node all the same (`Expr.Reread`), because they are in delimiters: an
operand that is derived at a node ends where the node ends, or, if the node is a call, at the
argument list, and the suffixes that are left over at the argument list run on to the end of the
node.

## Only if it is the same tree

That no call stands in a wrong place is shown for a node under the condition that the derived tree
is the node. A printed call may well be read as something else, and then nothing is said of what is
in it. The conditions of the parts follow from that of the node, because equal trees have equal
parts.
-/

namespace TemplateExpr

open Terminal

/-! ## Beginnings -/

theorem noOperator_of_begins {ts : List Terminal} (h : begins ts "(" = true) : NoOperator ts := by
  obtain ⟨t, us, rfl, ht⟩ := begins_eq_true_iff.1 h
  exact noOperator_of_spells ht (by decide) us

theorem begins_eq_false_of_begins {ts : List Terminal} {s s' : String} (h : begins ts s = true)
    (hne : s ≠ s') : begins ts s' = false := by
  obtain ⟨t, us, rfl, ht⟩ := begins_eq_true_iff.1 h
  exact spells_eq_false ht hne

namespace Expr

theorem begins_terminals {e : Expr} (h : e.All Spelled) (rest : List Terminal) {s : String}
    (hs : s ∈ closers) : begins (e.terminals ++ rest) s = false := by
  have hall : ∀ s ∈ closers, "(" ≠ s ∧ "[" ≠ s ∧
      s.toList.head?.any Text.isNameChar = false := by decide
  obtain ⟨hparen, hbracket, hfirst⟩ := hall s hs
  have hleaf : ∀ {t : Terminal} {ts : List Terminal} {cs : List Char}, Lexes cs (t :: ts) →
      t.kind ≠ .symbol → t.spells s = false := fun hlexes hkind ↦
    (hlexes.lexical _ List.mem_cons_self).spells_eq_false hkind hfirst
  induction h generalizing rest with
  | @intro e node children ih =>
    cases e with
    | literal v => exact hleaf (lexes_literal node) (by cases v <;> exact nofun)
    | name n => exact hleaf (.name (isName_of_isPlainName node)) nofun
    | unary | binary | ternary => exact decide_eq_false hparen
    | array => exact decide_eq_false hbracket
    | comma => exact node.elim
    | call f es =>
      cases hf : f.bareCallee? with
      | some n =>
        rw [terminals_call_of_bare hf]
        exact hleaf (.name (isName_of_isPlainName (of_bareCallee?_eq_some hf).2)) nofun
      | none =>
        rw [terminals_call_of_not_bare hf, List.append_assoc]
        exact ih f List.mem_cons_self _
    | filter n es =>
      rw [terminals, filterTerminals.eq_def]
      split <;> exact decide_eq_false hparen

/-! ## Keeping to the terminals -/

/-- What is derived at the terminals of an expression. -/
structure Reread (atEnd : Option String) (e : Expr) : Prop where
  /-- An operand ends with them, unless they are a call. -/
  operand (hcall : e.isCall = false) {d : Nat} {x : Expr} {rest r : List Terminal}
    (h : Derives atEnd d (.operand x) (e.terminals ++ rest) r) :
    r = rest ∧ (x = e → e.All BareCallFree)
  /-- If they are a call, an operand ends before an argument list, and suffixes after it take the
  rest of the call to make another one. -/
  head (hcall : e.isCall = true) {d : Nat} {x : Expr} {rest r : List Terminal}
    (h : Derives atEnd d (.operand x) (e.terminals ++ rest) r) :
    begins r "(" = true ∧ ∀ {d y z r'}, Derives atEnd d (.suffixes y z) r r' →
      ∃ d' y', y'.isCall = true ∧ Derives atEnd d' (.suffixes y' z) rest r'
  /-- An expression has them before its suffixes, if something comes after them that ends a
  chain. -/
  expression {d : Nat} {x : Expr} {rest r : List Terminal} (hoperator : NoOperator rest)
    (hquestion : begins rest "?" = false)
    (h : Derives atEnd d (.expression x) (e.terminals ++ rest) r) :
    ∃ d' y, Derives atEnd d' (.suffixes y x) rest r ∧ (y = e → e.All BareCallFree)

namespace Reread

variable {atEnd : Option String} {d : Nat} {e x : Expr} {es es' : List Expr}
  {rest r : List Terminal}

theorem of_operand (hcall : e.isCall = false)
    (h : ∀ {d x rest r}, Derives atEnd d (.operand x) (e.terminals ++ rest) r →
      r = rest ∧ (x = e → e.All BareCallFree)) : Reread atEnd e where
  operand _ {_ _ _ _} := h
  head hcall' := nomatch hcall.symm.trans hcall'
  expression hoperator hquestion hder := by
    obtain ⟨d', y, us, hy, hsuffixes⟩ := hder.of_expression
    obtain ⟨rfl, hfree⟩ := h hy
    obtain ⟨d'', hsuffixes⟩ := hsuffixes hoperator hquestion
    exact ⟨d'', y, hsuffixes, hfree⟩

theorem eq_rest_of_closes (h : Reread atEnd e) (hrest : Closes rest)
    (hder : Derives atEnd d (.expression x) (e.terminals ++ rest) r) :
    r = rest ∧ (x = e → e.All BareCallFree) := by
  obtain ⟨d', y, hsuffixes, hfree⟩ := h.expression hrest.operator hrest.question hder
  obtain ⟨rfl, rfl⟩ := hsuffixes.of_suffixes_of_not_begins hrest.parenthesis hrest.pipe
  exact ⟨rfl, hfree⟩

/-- After an operand comes nothing that a chain goes on with, if it does not come after the
terminals. -/
theorem after_operand (h : Reread atEnd e) (hrest : Closes rest)
    (hder : Derives atEnd d (.operand x) (e.terminals ++ rest) r) :
    NoOperator r ∧ begins r "?" = false := by
  cases hcall : e.isCall with
  | false =>
    obtain ⟨rfl, -⟩ := h.operand hcall hder
    exact ⟨hrest.operator, hrest.question⟩
  | true =>
    have hbegins := (h.head hcall hder).1
    exact ⟨noOperator_of_begins hbegins, begins_eq_false_of_begins hbegins (by decide)⟩

/-- Suffixes of an operand take nothing after the terminals. They make a call of it if the terminals
are one, and leave it as it is otherwise. -/
theorem suffixes_after_operand (h : Reread atEnd e) (hrest : Closes rest)
    (hder : Derives atEnd d (.operand x) (e.terminals ++ rest) r) {d' : Nat} {y z : Expr}
    {r' : List Terminal} (hsuffixes : Derives atEnd d' (.suffixes y z) r r') :
    r' = rest ∧ (e.isCall = true → z.isCall = true) ∧ (e.isCall = false → z = y) := by
  cases hcall : e.isCall with
  | false =>
    obtain ⟨rfl, -⟩ := h.operand hcall hder
    obtain ⟨rfl, rfl⟩ := hsuffixes.of_suffixes_of_not_begins hrest.parenthesis hrest.pipe
    exact ⟨rfl, nofun, fun _ ↦ rfl⟩
  | true =>
    obtain ⟨d'', y', hy', hsuffixes⟩ := (h.head hcall hder).2 hsuffixes
    obtain ⟨rfl, rfl⟩ := hsuffixes.of_suffixes_of_not_begins hrest.parenthesis hrest.pipe
    exact ⟨rfl, fun _ ↦ hy', nofun⟩

/-! ## Lists -/

theorem free_of_cons_eq (h : x = e → e.All BareCallFree)
    (h' : es' = es → ∀ e ∈ es, e.All BareCallFree) (heq : x :: es' = e :: es) :
    ∀ a ∈ e :: es, a.All BareCallFree := by
  injection heq with hx hes
  exact List.forall_mem_cons.2 ⟨h hx, h' hes⟩

theorem listRest (h : ∀ e ∈ es, Reread atEnd e) (hrest : Closes rest)
    (hcomma : begins rest "," = false) (hder : Derives atEnd d (.listRest es')
      ((terminalsList es).flatMap ([symbol ","] ++ ·) ++ rest) r) :
    r = rest ∧ (es' = es → ∀ e ∈ es, e.All BareCallFree) := by
  induction es generalizing d es' with
  | nil =>
    cases hder with
    | listEnd => exact ⟨rfl, fun _ _ he ↦ absurd he List.not_mem_nil⟩
    | listMore ht => cases hcomma.symm.trans ht
  | cons e es ih =>
    rw [terminalsList, List.flatMap_cons, List.append_assoc, List.append_assoc] at hder
    cases hder with
    | listEnd hend => cases (show true = false from hend)
    | listMore _ head tail =>
      obtain ⟨rfl, hfree⟩ := (h e List.mem_cons_self).eq_rest_of_closes (hrest.listRest _) head
      obtain ⟨rfl, hfree'⟩ := ih (fun e he ↦ h e (List.mem_cons_of_mem _ he)) tail
      exact ⟨rfl, free_of_cons_eq hfree hfree'⟩

theorem arguments (h : ∀ e ∈ es, Reread atEnd e) (hspelled : ∀ e ∈ es, e.All Spelled)
    (hder : Derives atEnd d (.arguments es')
      ([symbol ","].intercalate (terminalsList es) ++ symbol ")" :: rest) r) :
    r = rest ∧ (es' = es → ∀ e ∈ es, e.All BareCallFree) := by
  have hclose : Closes (symbol ")" :: rest) := closes_symbol (by decide) rest
  cases es with
  | nil =>
    cases hder with
    | noArguments => exact ⟨rfl, fun _ _ he ↦ absurd he List.not_mem_nil⟩
    | someArguments hsome => cases (show true = false from hsome)
  | cons e es =>
    have hbegins := fun us ↦
      begins_terminals (hspelled e List.mem_cons_self) us (s := ")") (by decide)
    rw [terminalsList, intercalate_cons, List.append_assoc] at hder
    obtain ⟨d₁, d₂, e', es'', vs, t, rfl, head, tail, -⟩ := hder.of_arguments (hbegins _)
    obtain ⟨rfl, hfree⟩ := (h e List.mem_cons_self).eq_rest_of_closes (hclose.listRest _) head
    obtain ⟨heq, hfree'⟩ := listRest (fun e he ↦ h e (List.mem_cons_of_mem _ he)) hclose rfl tail
    cases heq
    exact ⟨rfl, free_of_cons_eq hfree hfree'⟩

theorem elements (h : ∀ e ∈ es, Reread atEnd e) (hspelled : ∀ e ∈ es, e.All Spelled)
    (hder : Derives atEnd d (.elements es')
      ([symbol ","].intercalate (terminalsList es) ++ symbol "]" :: rest) r) :
    r = rest ∧ (es' = es → ∀ e ∈ es, e.All BareCallFree) := by
  induction es generalizing d es' with
  | nil =>
    cases hder with
    | noElements => exact ⟨rfl, fun _ _ he ↦ absurd he List.not_mem_nil⟩
    | element hsome | elementComma hsome => cases (show true = false from hsome)
  | cons e es ih =>
    have he := h e List.mem_cons_self
    have hbegins := fun us ↦
      begins_terminals (hspelled e List.mem_cons_self) us (s := "]") (by decide)
    have htail : ∀ {d es'}, Derives atEnd d (.elements es')
        ([symbol ","].intercalate (terminalsList es) ++ symbol "]" :: rest) r →
        r = rest ∧ (es' = es → ∀ e ∈ es, e.All BareCallFree) :=
      ih (fun e he ↦ h e (List.mem_cons_of_mem _ he))
        fun e he ↦ hspelled e (List.mem_cons_of_mem _ he)
    cases es with
    | nil =>
      rw [terminalsList, terminalsList, List.intercalate_singleton] at hder
      obtain ⟨d₁, d₂, e', es'', us, rfl, head, tail⟩ := hder.of_elements (hbegins _)
      obtain ⟨rfl, hfree⟩ := he.eq_rest_of_closes (closes_symbol (by decide) rest) head
      rcases tail with ⟨-, tail⟩ | ⟨t, vs, heq, ht, -⟩
      · obtain ⟨rfl, hfree'⟩ := htail tail
        exact ⟨rfl, free_of_cons_eq hfree hfree'⟩
      · cases heq
        exact absurd ht (by decide)
    | cons e₂ es =>
      rw [terminalsList, terminalsList, List.intercalate_cons_cons, List.append_assoc,
        List.append_assoc] at hder
      obtain ⟨d₁, d₂, e', es'', us, rfl, head, tail⟩ := hder.of_elements (hbegins _)
      obtain ⟨rfl, hfree⟩ := he.eq_rest_of_closes (closes_symbol (by decide) _) head
      rcases tail with ⟨hnone, -⟩ | ⟨t, vs, heq, -, tail⟩
      · cases (show true = false from hnone)
      · cases heq
        obtain ⟨rfl, hfree'⟩ := htail tail
        exact ⟨rfl, free_of_cons_eq hfree hfree'⟩

/-! ## Nodes -/

theorem closed_of_isCall (h : Reread atEnd e) (hcall : e.isCall = true)
    (hparen : begins rest "(" = false) (hpipe : begins rest "|" = false)
    (hder : Derives atEnd d (.expression x) (e.terminals ++ rest) r) : r = rest := by
  obtain ⟨d₁, y, us, hy, hsuffixes⟩ := hder.of_expression
  obtain ⟨hbegins, hrest⟩ := h.head hcall hy
  obtain ⟨d₂, hsuffixes⟩ := hsuffixes (noOperator_of_begins hbegins)
    (begins_eq_false_of_begins hbegins (by decide))
  obtain ⟨d₃, z, -, hsuffixes⟩ := hrest hsuffixes
  exact (hsuffixes.of_suffixes_of_not_begins hparen hpipe).2

theorem leaf {t : Terminal} (hcall : e.isCall = false) (hterminals : e.terminals = [t])
    (hkind : t.kind ≠ .symbol) (hlexical : t.Lexical) (hfree : e.All BareCallFree) :
    Reread atEnd e := by
  refine of_operand hcall fun {d x rest r} hder ↦ ⟨?_, fun _ ↦ hfree⟩
  rw [hterminals] at hder
  exact hder.of_operand_leaf hkind (hlexical.spells_eq_false hkind (by decide))
    (hlexical.spells_eq_false hkind (by decide))

theorem unary {op : UnaryOp} {a : Expr} (h : Reread atEnd a) : Reread atEnd (unary op a) := by
  refine of_operand rfl fun {d x rest r} hder ↦ ?_
  have hclose : Closes (symbol ")" :: rest) := closes_symbol (by decide) rest
  simp only [terminals, List.cons_append, List.append_assoc, List.nil_append] at hder
  obtain ⟨t, hinner, -⟩ := hder.of_operand_parenthesis
  obtain ⟨d₁, y, us, hy, hsuffixes⟩ := hinner.of_expression
  -- the prefix operator takes the operand only, so the rest of a call is left to the expression
  obtain ⟨d₂, z, rfl, hz⟩ := hy.of_operand_unary
  obtain ⟨hoperator, hquestion⟩ := h.after_operand hclose hz
  obtain ⟨d₃, hsuffixes⟩ := hsuffixes hoperator hquestion
  obtain ⟨heq, hcall, hsame⟩ := h.suffixes_after_operand hclose hz hsuffixes
  cases heq
  refine ⟨rfl, ?_⟩
  rintro rfl
  cases ha : a.isCall with
  | true => cases hcall ha
  | false =>
    cases hsame ha
    exact all_unary.2 ⟨ha, (h.operand ha hz).2 rfl⟩

theorem binary {op : BinaryOp} {l r : Expr} (h : Reread atEnd l) (h' : Reread atEnd r) :
    Reread atEnd (binary op l r) := by
  refine of_operand rfl fun {d x rest r'} hder ↦ ?_
  have hclose : Closes (symbol ")" :: rest) := closes_symbol (by decide) rest
  simp only [terminals, List.cons_append, List.append_assoc, List.nil_append] at hder
  obtain ⟨t, hinner, ht⟩ := hder.of_operand_parenthesis
  cases hl : l.isCall with
  | true =>
    -- the operator comes where the closing parenthesis has to
    have hstuck := h.closed_of_isCall hl (by cases op <;> rfl) (by cases op <;> rfl) hinner
    cases hstuck
    exact absurd ht (by cases op <;> decide)
  | false =>
    obtain ⟨d₁, d₂, d₃, l', r'', vs, hleft, hright, hsuffixes⟩ := hinner.of_expression_operator
      (t := symbol op.spelling) (fun h₁ ↦ (h.operand hl h₁).1)
      (fun h₁ ↦ h'.after_operand hclose h₁) (decide_eq_true rfl) op.spelling_mem_levels
    obtain ⟨heq, hcall, hsame⟩ := h'.suffixes_after_operand hclose hright hsuffixes
    cases heq
    refine ⟨rfl, ?_⟩
    rintro rfl
    cases hr : r.isCall with
    | true => cases hcall hr
    | false =>
      cases hsame hr
      exact all_binary.2 ⟨⟨hl, hr⟩, (h.operand hl hleft).2 rfl, (h'.operand hr hright).2 rfl⟩

theorem ternary {c a b : Expr} (h : Reread atEnd c) (h' : Reread atEnd a) (h'' : Reread atEnd b) :
    Reread atEnd (ternary c a b) := by
  refine of_operand rfl fun {d x rest r} hder ↦ ?_
  have hclose : Closes (symbol ")" :: rest) := closes_symbol (by decide) rest
  simp only [terminals, List.cons_append, List.append_assoc, List.nil_append] at hder
  obtain ⟨t, hinner, ht⟩ := hder.of_operand_parenthesis
  cases hc : c.isCall with
  | true =>
    -- the question mark comes where the closing parenthesis has to
    have hstuck := h.closed_of_isCall hc rfl rfl hinner
    cases hstuck
    exact absurd ht (by decide)
  | false =>
    obtain ⟨d₁, d₂, d₃, d₄, c', a', b', t', vs, ws, hcond, hthen, -, helse, hsuffixes⟩ :=
      hinner.of_expression_question fun h₁ ↦ (h.operand hc h₁).1
    obtain ⟨heq, ha⟩ := h'.eq_rest_of_closes (closes_symbol (by decide) _) hthen
    cases heq
    obtain ⟨rfl, hb⟩ := h''.eq_rest_of_closes hclose helse
    obtain ⟨rfl, heq⟩ :=
      hsuffixes.of_suffixes_of_not_begins hclose.parenthesis hclose.pipe
    cases heq
    refine ⟨rfl, fun heq ↦ ?_⟩
    cases heq
    exact all_ternary.2 ⟨hc, (h.operand hc hcond).2 rfl, ha rfl, hb rfl⟩

theorem array (h : ∀ e ∈ es, Reread atEnd e) (hspelled : ∀ e ∈ es, e.All Spelled) :
    Reread atEnd (array es) := by
  refine of_operand rfl fun {d x rest r} hder ↦ ?_
  rw [terminals, List.cons_append, List.append_assoc] at hder
  obtain ⟨es', rfl, helements⟩ := hder.of_operand_bracket
  obtain ⟨rfl, hfree⟩ := elements h hspelled helements
  refine ⟨rfl, fun heq ↦ ?_⟩
  cases heq
  exact all_array.2 ⟨trivial, hfree rfl⟩

theorem filter {n : String} (hn : IsFilterName n) (h : Reread atEnd e)
    (h' : ∀ e ∈ es, Reread atEnd e) (hspelled : ∀ e ∈ es, e.All Spelled) :
    Reread atEnd (filter n (e :: es)) := by
  refine of_operand rfl fun {d x rest r} hder ↦ ?_
  have hclose : Closes (symbol ")" :: rest) := closes_symbol (by decide) rest
  have hpipe : ∀ ts, NoOperator (symbol "|" :: ts) := noOperator_symbol (by decide)
  have hname := (lexes_of_isFilterName hn).2
  cases es with
  | nil =>
    simp only [terminals, terminalsList, filterTerminals, List.cons_append, List.append_assoc,
      List.nil_append] at hder
    obtain ⟨t, hinner, -⟩ := hder.of_operand_parenthesis
    obtain ⟨d₁, y, hsuffixes, hfree⟩ := h.expression (hpipe _) rfl hinner
    obtain ⟨rfl, heq⟩ := (hsuffixes.of_suffixes_filter rfl).of_suffixes_of_not_begins
      hclose.parenthesis hclose.pipe
    cases heq
    refine ⟨rfl, fun heq ↦ ?_⟩
    rw [hname] at heq
    cases heq
    exact all_filter.2 ⟨trivial, List.forall_mem_singleton.2 (hfree rfl)⟩
  | cons e₂ es =>
    simp only [terminals, terminalsList, filterTerminals, List.cons_append, List.append_assoc,
      List.nil_append] at hder
    obtain ⟨t, hinner, -⟩ := hder.of_operand_parenthesis
    obtain ⟨d₁, y, hsuffixes, hfree⟩ := h.expression (hpipe _) rfl hinner
    obtain ⟨d₂, d₃, es', us, harguments, hsuffixes⟩ := hsuffixes.of_suffixes_filterWith
    obtain ⟨rfl, hfree'⟩ := arguments h' hspelled harguments
    obtain ⟨rfl, heq⟩ :=
      hsuffixes.of_suffixes_of_not_begins hclose.parenthesis hclose.pipe
    cases heq
    refine ⟨rfl, fun heq ↦ ?_⟩
    injection heq with _ hes
    exact all_filter.2 ⟨trivial, free_of_cons_eq hfree hfree' hes⟩

/-! ## Calls -/

/-- Suffixes that begin with an argument list go on after its terminals. -/
theorem suffixes_arguments (h : ∀ e ∈ es, Reread atEnd e) (hspelled : ∀ e ∈ es, e.All Spelled)
    {y z : Expr} (hder : Derives atEnd d (.suffixes y z)
      (symbol "(" :: ([symbol ","].intercalate (terminalsList es) ++ symbol ")" :: rest)) r) :
    ∃ d' es', Derives atEnd d' (.suffixes (.call (Grammar.callee y) es') z) rest r ∧
      (es' = es → ∀ e ∈ es, e.All BareCallFree) := by
  obtain ⟨d₁, d₂, es', us, harguments, hsuffixes⟩ := hder.of_suffixes_call
  obtain ⟨rfl, hfree⟩ := arguments h hspelled harguments
  exact ⟨d₂, es', hsuffixes, hfree⟩

theorem callByName {n : String} (hn : isPlainName n = true) (h : ∀ e ∈ es, Reread atEnd e)
    (hspelled : ∀ e ∈ es, e.All Spelled) : Reread atEnd (call (string n) es) := by
  have hbare : (string n).bareCallee? = some n := if_pos hn
  have hlexical : Terminal.Lexical ⟨.identifier, n⟩ := isName_of_isPlainName hn
  have hleaf : ∀ {d x ts r}, Derives atEnd d (.operand x) (⟨.identifier, n⟩ :: ts) r → r = ts :=
    fun hder ↦ hder.of_operand_leaf nofun (hlexical.spells_eq_false nofun (by decide))
      (hlexical.spells_eq_false nofun (by decide))
  refine ⟨nofun, fun _ {d x rest r} hder ↦ ?_, fun {d x rest r} hoperator hquestion hder ↦ ?_⟩
  · rw [terminals_call_of_bare hbare] at hder
    simp only [List.cons_append, List.append_assoc, List.nil_append] at hder
    obtain rfl := hleaf hder
    refine ⟨rfl, fun {d y z r'} hsuffixes ↦ ?_⟩
    obtain ⟨d', es', hsuffixes, -⟩ := suffixes_arguments h hspelled hsuffixes
    exact ⟨d', _, rfl, hsuffixes⟩
  · rw [terminals_call_of_bare hbare] at hder
    simp only [List.cons_append, List.append_assoc, List.nil_append] at hder
    obtain ⟨d₁, y, us, hy, hsuffixes⟩ := hder.of_expression
    obtain rfl := hleaf hy
    obtain ⟨d₂, hsuffixes⟩ := hsuffixes (noOperator_symbol (by decide) _) rfl
    obtain ⟨d', es', hsuffixes, hfree⟩ := suffixes_arguments h hspelled hsuffixes
    refine ⟨d', _, hsuffixes, fun heq ↦ ?_⟩
    injection heq with _ hes
    exact all_call.2 ⟨trivial, all_literal.2 trivial, hfree hes⟩

theorem call {f : Expr} (hbare : f.bareCallee? = none) (h : Reread atEnd f)
    (h' : ∀ e ∈ es, Reread atEnd e) (hspelled : ∀ e ∈ es, e.All Spelled) :
    Reread atEnd (call f es) := by
  refine ⟨nofun, fun _ {d x rest r} hder ↦ ?_, fun {d x rest r} hoperator hquestion hder ↦ ?_⟩
  · rw [terminals_call_of_not_bare hbare] at hder
    simp only [List.cons_append, List.append_assoc, List.nil_append] at hder
    -- an operand ends before the first argument list of the call, which may be one in its function
    cases hf : f.isCall with
    | false =>
      obtain ⟨rfl, -⟩ := h.operand hf hder
      refine ⟨rfl, fun {d y z r'} hsuffixes ↦ ?_⟩
      obtain ⟨d', es', hsuffixes, -⟩ := suffixes_arguments h' hspelled hsuffixes
      exact ⟨d', _, rfl, hsuffixes⟩
    | true =>
      obtain ⟨hbegins, hrest⟩ := h.head hf hder
      refine ⟨hbegins, fun {d y z r'} hsuffixes ↦ ?_⟩
      obtain ⟨d₁, y', -, hsuffixes⟩ := hrest hsuffixes
      obtain ⟨d', es', hsuffixes, -⟩ := suffixes_arguments h' hspelled hsuffixes
      exact ⟨d', _, rfl, hsuffixes⟩
  · rw [terminals_call_of_not_bare hbare] at hder
    simp only [List.cons_append, List.append_assoc, List.nil_append] at hder
    obtain ⟨d₁, y, hsuffixes, hfree⟩ :=
      h.expression (noOperator_symbol (by decide) _) rfl hder
    obtain ⟨d', es', hsuffixes, hfree'⟩ := suffixes_arguments h' hspelled hsuffixes
    refine ⟨d', _, hsuffixes, fun heq ↦ ?_⟩
    injection heq with hcallee hes
    refine all_call.2 ⟨trivial, ?_, hfree' hes⟩
    -- the function of the call that is made is `y`, unless that is a name
    cases y with
    | name n => exact hcallee ▸ all_literal.2 trivial
    | _ => exact hfree hcallee

end Reread

/-! ## Whole trees -/

theorem reread_of_spelled {atEnd : Option String} {e : Expr} (h : e.All Spelled)
    (h' : e.All Shaped) : Reread atEnd e := by
  induction h with
  | @intro e node children ih =>
    have hchild : ∀ a ∈ e.children, Reread atEnd a := fun a ha ↦ ih a ha (h'.child ha)
    cases e with
    | literal v =>
      exact .leaf rfl rfl (by cases v <;> exact nofun)
        ((lexes_literal node).lexical _ (List.mem_singleton_self _)) (all_literal.2 trivial)
    | name n =>
      exact .leaf rfl rfl nofun (isName_of_isPlainName node) (all_name.2 trivial)
    | unary op a => exact .unary (hchild a (by simp [Expr.children]))
    | binary op l r =>
      exact .binary (hchild l (by simp [Expr.children])) (hchild r (by simp [Expr.children]))
    | ternary c a b =>
      exact .ternary (hchild c (by simp [Expr.children])) (hchild a (by simp [Expr.children]))
        (hchild b (by simp [Expr.children]))
    | array es => exact .array hchild children
    | comma => exact node.elim
    | call f es =>
      have hes := fun e he ↦ hchild e (List.mem_cons_of_mem f he)
      have hspelled := fun e he ↦ children e (List.mem_cons_of_mem f he)
      cases hbare : f.bareCallee? with
      | some n =>
        obtain ⟨rfl, hn⟩ := of_bareCallee?_eq_some hbare
        exact .callByName hn hes hspelled
      | none => exact .call hbare (hchild f List.mem_cons_self) hes hspelled
    | filter n es =>
      cases es with
      | nil => exact absurd rfl h'.node
      | cons e es =>
        exact .filter node (hchild e List.mem_cons_self)
          (fun a ha ↦ hchild a (List.mem_cons_of_mem e ha))
          fun a ha ↦ children a (List.mem_cons_of_mem e ha)

/-- An expression that is derived from its own terminals has no call where an operand has to
stand. -/
theorem bareCallFree_of_derives {atEnd : Option String} {d : Nat} {e : Expr}
    (h : e.All Spelled) (h' : e.All Shaped)
    (hder : Derives atEnd d (.expression e) e.terminals []) : e.All BareCallFree := by
  rw [← List.append_nil e.terminals] at hder
  exact ((reread_of_spelled h h').eq_rest_of_closes closes_nil hder).2 rfl

end Expr

end TemplateExpr
