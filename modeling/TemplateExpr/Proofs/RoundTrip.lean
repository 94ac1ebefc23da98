import TemplateExpr.Proofs.Printing

/-!
# Trees read back from their printed form

An expression whose nodes are all spelled in a way that can be read back, and in which no call
stands where an operand has to, is read back from its infix form if it has no more levels than there
may be, and is refused for its levels otherwise (`Expr.Printable.ofString_text`). The levels are
counted on the tree (`Expr.levels`): the parentheses that printing puts around a node open one level
each.

## Calls

The calls are what makes this more than a matter of parentheses. Everything else that is made of
parts is printed in delimiters of its own and is an operand. A call is not: it is printed as its
function and its arguments, and becomes an expression together with whatever comes before its
argument list. So what is proved of a printed expression is not that it is an operand, but that it
turns the suffixes after it into suffixes of the expression (`Expr.Written`).

## Levels

A sign opens two levels, one for its parentheses and one for its operand, and the branches of a
choice stand a level deeper than its condition. Filters are counted apart, because what is piped
into them stands outside the parentheses of their other arguments.
-/

namespace TemplateExpr

open Terminal

namespace Expr

/-! ## Levels -/

mutual

def inside : Expr → Nat
  | literal _ | name _ => 0
  | unary _ a => inside a + 2
  | binary _ l r => max (inside l) (inside r) + 1
  | ternary c a b => max (inside c) (max (inside a + 1) (inside b + 1)) + 1
  | array es | comma es => levelsList es
  | call f es => max (inside f) (levelsList es)
  | filter _ es => filterInside es

/-- How many levels are open at once inside the one at which a filter with the given arguments
stands. The first of them stands at the level that the parentheses open. -/
def filterInside : List Expr → Nat
  | [] => 1
  | e :: es => max (inside e) (levelsList es) + 1

/-- How many levels are open at once in the expressions of a list. -/
def levelsList : List Expr → Nat
  | [] => 0
  | e :: es => max (inside e + 1) (levelsList es)

end

/-- How many levels are open at once in an expression, its own included. -/
def levels (e : Expr) : Nat := e.inside + 1

/-! ## Trees that can be read back -/

def isCall : Expr → Bool
  | call .. => true
  | _ => false

/-- A node is one that reading makes: a bare name is no function, and a filter has an input. -/
def Shaped : Expr → Prop
  | call f _ => ∀ n, f ≠ name n
  | filter _ es => es ≠ []
  | _ => True

/-- No operand of an operator and no condition of a choice is a call. -/
def BareCallFree : Expr → Prop
  | unary _ a => a.isCall = false
  | binary _ l r => l.isCall = false ∧ r.isCall = false
  | ternary c _ _ => c.isCall = false
  | _ => True

/-- An expression can be read back from its infix form. -/
def Printable (e : Expr) : Prop := e.All fun e ↦ e.Spelled ∧ e.Shaped ∧ e.BareCallFree

/-! ## The printed form is derived -/

/-- The terminals of an expression, before any suffixes, are an expression with these suffixes; and
they are an operand, unless the expression is a call. -/
structure Written (e : Expr) : Prop where
  operand (h : e.isCall = false) (rest : List Terminal) :
    Derives none e.inside (.operand e) (e.terminals ++ rest) rest
  expression {d : Nat} {e' : Expr} {rest rest' : List Terminal} (hoperator : NoOperator rest)
    (hquestion : begins rest "?" = false) (h : Derives none d (.suffixes e e') rest rest') :
    Derives none (max e.inside d + 1) (.expression e') (e.terminals ++ rest) rest'

namespace Written

variable {e : Expr} {es : List Expr}

theorem of_operand
    (h : ∀ rest, Derives none e.inside (.operand e) (e.terminals ++ rest) rest) : Written e where
  operand _ := h
  expression hoperator hquestion hsuffixes :=
    .expression ((h _).ternary_of_operand hoperator hquestion) hsuffixes

theorem derives_append (h : Written e) {rest : List Terminal} (hrest : Closes rest) :
    Derives none e.levels (.expression e) (e.terminals ++ rest) rest := by
  have hexpr := h.expression hrest.operator hrest.question
    (.noSuffix hrest.parenthesis hrest.pipe)
  rwa [Nat.max_zero] at hexpr

theorem standsList (h : ∀ e ∈ es, Written e) (hlexes : ∀ e ∈ es, Lexes e.chars e.terminals) :
    StandsList (levelsList es) es (terminalsList es) := by
  induction es with
  | nil => exact .nil
  | cons e es ih =>
    have hbefore := (h e List.mem_cons_self).derives_append closes_nil
    rw [List.append_nil] at hbefore
    exact .cons (.of_lexes hbefore (hlexes e List.mem_cons_self))
      (ih (fun e' he' ↦ h e' (List.mem_cons_of_mem _ he'))
        fun e' he' ↦ hlexes e' (List.mem_cons_of_mem _ he'))

/-! ## Nodes -/

theorem literal {v : Literal} (h : Spelled (literal v)) : Written (literal v) := by
  refine .of_operand fun rest ↦ ?_
  cases v with
  | number d =>
    have hv : Literal.ofNumber? (String.ofList d.chars).toList = some (.number d) := by
      rw [String.toList_ofList, Literal.ofNumber?, Decimal.ofChars?_chars d]
    exact .number rfl hv
  | float => exact h.elim
  | string s => exact .string (t := ⟨.string, s⟩) rfl
  | boolean b =>
    cases b with
    | false => exact .word (t := (Literal.boolean false).terminal) rfl rfl rfl
    | true => exact .word (t := (Literal.boolean true).terminal) rfl rfl rfl
  | null => exact .word (t := Literal.null.terminal) rfl rfl rfl

theorem unary {op : UnaryOp} {a : Expr} (h : Written a) (hcall : a.isCall = false) :
    Written (unary op a) := by
  refine .of_operand fun rest ↦ ?_
  have hclose : Closes (symbol ")" :: rest) := closes_symbol (by decide) rest
  have hinner := (Derives.unary (t := symbol op.spelling) rfl op.ofSpelling?_spelling
    (h.operand hcall _)).expression_of_operand hclose
  simp only [terminals, List.cons_append, List.append_assoc, List.nil_append]
  exact .parentheses rfl hinner rfl

theorem binary {op : BinaryOp} {l r : Expr} (h : Written l) (hcall : l.isCall = false)
    (h' : Written r) (hcall' : r.isCall = false) : Written (binary op l r) := by
  refine .of_operand fun rest ↦ ?_
  have hclose : Closes (symbol ")" :: rest) := closes_symbol (by decide) rest
  have hinner := (h.operand hcall _).expression_of_operands (t := symbol op.spelling)
    (h'.operand hcall' _) (decide_eq_true rfl) op.spelling_mem_levels hclose
  simp only [terminals, List.cons_append, List.append_assoc, List.nil_append]
  exact .parentheses rfl hinner rfl

theorem ternary {c a b : Expr} (h : Written c) (hcall : c.isCall = false) (h' : Written a)
    (h'' : Written b) : Written (ternary c a b) := by
  refine .of_operand fun rest ↦ ?_
  have hclose : Closes (symbol ")" :: rest) := closes_symbol (by decide) rest
  have hinner := (h.operand hcall _).expression_choice
    (h'.derives_append (closes_symbol (by decide) _)) (h''.derives_append hclose) rfl rfl
  simp only [terminals, List.cons_append, List.append_assoc, List.nil_append]
  exact .parentheses rfl hinner rfl

theorem array (h : StandsList (levelsList es) es (terminalsList es)) : Written (array es) := by
  refine .of_operand fun rest ↦ ?_
  rw [terminals, List.cons_append, List.append_assoc]
  exact .array rfl (h.elements rest)

theorem filter {n : String} (hn : IsFilterName n) (h : Written e)
    (h' : StandsList (levelsList es) es (terminalsList es)) : Written (filter n (e :: es)) := by
  refine .of_operand fun rest ↦ ?_
  have hname := (lexes_of_isFilterName hn).2
  have hpipe : ∀ ts, NoOperator (symbol "|" :: ts) := noOperator_symbol (by decide)
  cases es with
  | nil =>
    have hsuffix : Derives none 0 (.suffixes e (.filter (Terminal.ofName n).text [e]))
        (symbol "|" :: .ofName n :: symbol ")" :: rest) (symbol ")" :: rest) :=
      .filter rfl rfl (.noSuffix rfl rfl)
    have hinner := h.expression (hpipe _) rfl hsuffix
    rw [hname] at hinner
    simp only [terminals, terminalsList, filterTerminals, List.cons_append, List.append_assoc,
      List.nil_append]
    exact .parentheses rfl hinner rfl
  | cons e' es =>
    have hsuffix : Derives none (max (levelsList (e' :: es)) 0)
        (.suffixes e (.filter (Terminal.ofName n).text (e :: e' :: es)))
        (symbol "|" :: .ofName n :: symbol "(" ::
          ([symbol ","].intercalate (terminalsList (e' :: es)) ++ symbol ")" ::
            symbol ")" :: rest)) (symbol ")" :: rest) :=
      .filterWith rfl rfl (h'.arguments _) (.noSuffix rfl rfl)
    have hinner := h.expression (hpipe _) rfl hsuffix
    rw [hname, Nat.max_zero] at hinner
    simp only [terminals, terminalsList, filterTerminals, List.cons_append, List.append_assoc,
      List.nil_append] at hinner ⊢
    exact .parentheses rfl hinner rfl

theorem call {f : Expr} (h : Written f) (hf : ∀ n, f ≠ name n)
    (h' : StandsList (levelsList es) es (terminalsList es)) : Written (call f es) where
  operand hcall := nomatch hcall
  expression {d e' rest rest'} hoperator hquestion hsuffixes := by
    have hcallee : Grammar.callee f = f := by
      cases f with
      | name n => exact absurd rfl (hf n)
      | _ => rfl
    cases hbare : f.bareCallee? with
    | some n =>
      -- the function is printed as a name, and calling the name makes it a string again
      obtain ⟨rfl, hn⟩ := of_bareCallee?_eq_some hbare
      have htail : Derives none (max (levelsList es) d) (.suffixes (name n) e') _ rest' :=
        .call (t := symbol "(") rfl (h'.arguments rest) hsuffixes
      have hexpr := Derives.expression ((Derives.operand_name hn _).ternary_of_operand
        (noOperator_symbol (by decide) _) rfl) htail
      rw [← Nat.max_assoc] at hexpr
      rw [terminals_call_of_bare hbare]
      simp only [List.cons_append, List.append_assoc, List.nil_append]
      exact hexpr
    | none =>
      -- the argument list is one more suffix of the function
      have htail : Derives none (max (levelsList es) d) (.suffixes f e') _ rest' :=
        .call (t := symbol "(") rfl (h'.arguments rest) (hcallee.symm ▸ hsuffixes)
      have hexpr := h.expression (noOperator_symbol (by decide) _) rfl htail
      rw [← Nat.max_assoc] at hexpr
      rw [terminals_call_of_not_bare hbare]
      simp only [List.cons_append, List.append_assoc, List.nil_append]
      exact hexpr

end Written

namespace Printable

variable {e : Expr}

/-! ## Whole trees -/

theorem lexes_terminals (h : e.Printable) : Lexes e.chars e.terminals :=
  lexes_chars (h.mono fun _ he ↦ he.1)

theorem written (h : e.Printable) : Written e := by
  rw [Printable] at h
  induction h with
  | @intro e node children ih =>
    obtain ⟨hspelled, hshaped, hfree⟩ := node
    have hlist : ∀ es : List Expr, (∀ a ∈ es, a ∈ e.children) →
        StandsList (levelsList es) es (terminalsList es) := fun es hes ↦
      Written.standsList (fun a ha ↦ ih a (hes a ha))
        fun a ha ↦ lexes_terminals (children a (hes a ha))
    cases e with
    | literal v => exact .literal hspelled
    | name n => exact .of_operand (Derives.operand_name hspelled)
    | unary op a => exact .unary (ih a (by simp [Expr.children])) hfree
    | binary op l r =>
      exact .binary (ih l (by simp [Expr.children])) hfree.1
        (ih r (by simp [Expr.children])) hfree.2
    | ternary c a b =>
      exact .ternary (ih c (by simp [Expr.children])) hfree (ih a (by simp [Expr.children]))
        (ih b (by simp [Expr.children]))
    | array es => exact .array (hlist es fun _ ha ↦ ha)
    | comma => exact hspelled.elim
    | call f es =>
      exact .call (ih f List.mem_cons_self) hshaped
        (hlist es fun _ ha ↦ List.mem_cons_of_mem _ ha)
    | filter n es =>
      cases es with
      | nil => exact absurd rfl hshaped
      | cons e es =>
        exact .filter hspelled (ih e List.mem_cons_self)
          (hlist es fun _ ha ↦ List.mem_cons_of_mem _ ha)

/-- The terminals of an expression that can be read back are the expression. -/
theorem derives_terminals (h : e.Printable) :
    Derives none e.levels (.expression e) e.terminals [] := by
  have hbefore := h.written.derives_append closes_nil
  rwa [List.append_nil] at hbefore

/-- An expression that can be read back is read back from its infix form, unless it has too many
levels. -/
theorem ofString_text (h : e.Printable) : (e.levels ≤ maxNesting → ofString e.text = .ok e) ∧
    (maxNesting < e.levels → ∃ t, ofString e.text = .error (.nestingTooDeep t)) := by
  have hlexes : Lexes e.text.toList e.terminals := by
    rw [text, String.toList_ofList]
    exact h.lexes_terminals
  exact ofString_of_derives hlexes h.derives_terminals.mono

/-- Calls of names and of calls, where they may stand. -/
theorem ofString_text_of_sum :
    let e := binary .add
      (filter "g" [call (string "f") [literal (.number ⟨150, 2, by decide, by decide⟩)],
        array [string "it's\n", name "x"]])
      (ternary (unary .not (name "a")) (call (call (string "f") []) []) (literal .null))
    ofString e.text = .ok e := by
  intro e
  have hfilter : IsFilterName "g" := isFilterName_of_isName rfl
  have hname : ∀ n ∈ ["a", "x"], isPlainName n = true := by decide
  have he : e.Printable := by
    simp [e, Printable, string, Spelled, Shaped, BareCallFree, isCall, hfilter, hname,
      - String.reduceToList]
    exact ⟨⟨List.all_eq_true.1 rfl, List.all_eq_true.1 rfl⟩, List.all_eq_true.1 rfl⟩
  exact (ofString_text he).1 (by decide)

end Printable

end Expr

end TemplateExpr
