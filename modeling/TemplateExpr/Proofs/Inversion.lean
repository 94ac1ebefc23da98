import TemplateExpr.Proofs.Building

/-!
# Taking derivations apart

What a derivation has to be, read off the terminals at its beginning: which rule an operand was
derived by, where the chains above an operand end, and what the next suffix is. Each statement says
what is left over as well, since the next part of a derivation begins there.

## Conditions on whatever is derived

The operand at the beginning of a chain is not known in advance, so what comes after it cannot be
told from the terminals alone. Where a statement needs it, it is a condition on any operand that can
be derived there (`Derives.of_chain_operator`): whatever the operand is, it leaves these terminals.
Whoever uses such a statement knows one operand and that it is the only one.

## Levels

How many levels a part opens is of no use here. It is left open in each statement, and the number of
the whole is not taken apart.
-/

namespace TemplateExpr

open Terminal

namespace Derives

variable {atEnd : Option String} {d : Nat} {x y : Expr} {ts us rest : List Terminal}

/-! ## Operands -/

theorem of_operand_parenthesis (h : Derives atEnd d (.operand x) (symbol "(" :: ts) rest) :
    ∃ t, Derives atEnd d (.expression x) ts (t :: rest) ∧ t.spells ")" = true := by
  cases h with
  | parentheses _ head ht' => exact ⟨_, head, ht'⟩
  | array ht => exact absurd ht (by decide)
  | unary _ hop => cases hop
  | number hkind | string hkind | word hkind => cases hkind

theorem of_operand_bracket (h : Derives atEnd d (.operand x) (symbol "[" :: ts) rest) :
    ∃ es, x = .array es ∧ Derives atEnd d (.elements es) ts rest := by
  cases h with
  | parentheses ht => exact absurd ht (by decide)
  | array _ head => exact ⟨_, rfl, head⟩
  | unary _ hop => cases hop
  | number hkind | string hkind | word hkind => cases hkind

theorem of_operand_unary {op : UnaryOp}
    (h : Derives atEnd d (.operand x) (symbol op.spelling :: ts) rest) :
    ∃ d' y, x = .unary op y ∧ Derives atEnd d' (.operand y) ts rest := by
  cases h with
  | parentheses ht => exact absurd ht (by cases op <;> decide)
  | array ht => exact absurd ht (by cases op <;> decide)
  | unary _ hop head =>
    obtain rfl := Option.some.inj (op.ofSpelling?_spelling.symm.trans hop)
    exact ⟨_, _, rfl, head⟩
  | number hkind | string hkind | word hkind => cases hkind

theorem of_operand_leaf {t : Terminal} (h : Derives atEnd d (.operand x) (t :: ts) rest)
    (hkind : t.kind ≠ .symbol) (hparen : t.spells "(" = false) (hbracket : t.spells "[" = false) :
    rest = ts := by
  cases h with
  | parentheses ht => cases hparen.symm.trans ht
  | array ht => cases hbracket.symm.trans ht
  | unary hsymbol => exact absurd hsymbol hkind
  | number | string | word => rfl

/-! ## Chains -/

/-- A chain begins with an operand, and is that operand if no operator comes after it. -/
theorem of_chain {levels : List (List (String × BinaryOp))}
    (h : Derives atEnd d (.chain levels x) ts rest) :
    ∃ d' y us, Derives atEnd d' (.operand y) ts us ∧
      ((∀ operators ∈ levels, operator? operators us = none) → x = y ∧ rest = us) := by
  induction levels generalizing d x rest with
  | nil =>
    cases h with
    | single head => exact ⟨_, _, _, head, fun _ ↦ ⟨rfl, rfl⟩⟩
  | cons operators tighter ih =>
    cases h with
    | chain head tail =>
      obtain ⟨d', y, us, hoperand, hend⟩ := ih head
      refine ⟨d', y, us, hoperand, fun hnone ↦ ?_⟩
      obtain ⟨rfl, rfl⟩ := hend fun l hl ↦ hnone l (List.mem_cons_of_mem _ hl)
      cases tail with
      | chainEnd => exact ⟨rfl, rfl⟩
      | chainMore hop => cases (hnone _ List.mem_cons_self).symm.trans hop

theorem of_chainRest_of_none {operators : List (String × BinaryOp)}
    {tighter : List (List (String × BinaryOp))}
    (h : Derives atEnd d (.chainRest operators tighter y x) ts rest)
    (hnone : operator? operators ts = none) : x = y ∧ rest = ts := by
  cases h with
  | chainEnd => exact ⟨rfl, rfl⟩
  | chainMore hop => cases hnone.symm.trans hop

theorem of_chain_operator {op : BinaryOp} {s : String} {t : Terminal}
    {levels : List (List (String × BinaryOp))} (h : Derives atEnd d (.chain levels x) ts rest)
    (hleft : ∀ {d y vs}, Derives atEnd d (.operand y) ts vs → vs = t :: us)
    (hright : ∀ {d y vs}, Derives atEnd d (.operand y) us vs →
      ∀ operators ∈ levels, operator? operators vs = none)
    (ht : t.spells s) (hop : (s, op) ∈ levels.flatten)
    (hnodup : (levels.flatten.map Prod.fst).Nodup) :
    ∃ d' d'' l r, x = .binary op l r ∧ Derives atEnd d' (.operand l) ts (t :: us) ∧
      Derives atEnd d'' (.operand r) us rest := by
  induction levels generalizing d x rest with
  | nil => exact absurd hop List.not_mem_nil
  | cons operators tighter ih =>
    have htighter : ∀ {d y vs}, Derives atEnd d (.operand y) us vs →
        ∀ operators ∈ tighter, operator? operators vs = none :=
      fun h l hl ↦ hright h l (List.mem_cons_of_mem _ hl)
    rw [List.flatten_cons, List.map_append, List.nodup_append] at hnodup
    obtain ⟨hnodup, hnodup', hdisjoint⟩ := hnodup
    cases h with
    | chain head tail =>
      rcases List.mem_append.1 hop with hop | hop
      -- the operator is one of this level, so no tighter one has it
      · obtain ⟨d', l, vs, hl, hend⟩ := of_chain head
        obtain rfl := hleft hl
        obtain ⟨rfl, rfl⟩ := hend fun l hl ↦ operator?_eq_none ht (fun hmem ↦ by
          refine hdisjoint s (List.mem_map_of_mem hop) s ?_ rfl
          rw [List.map_flatten, List.mem_flatten]
          exact ⟨_, List.mem_map_of_mem hl, hmem⟩) us
        have hsome := operator?_eq_some ht hop hnodup us
        cases tail with
        | chainEnd hnone => cases hsome.symm.trans hnone
        | chainMore hop' head tail =>
          obtain rfl := Option.some.inj (hsome.symm.trans hop')
          obtain ⟨d'', r, vs, hr, hend⟩ := of_chain head
          obtain ⟨rfl, rfl⟩ := hend (htighter hr)
          obtain ⟨rfl, rfl⟩ := of_chainRest_of_none tail (hright hr _ List.mem_cons_self)
          exact ⟨d', d'', _, _, rfl, hl, hr⟩
      · obtain ⟨d', d'', l, r, rfl, hl, hr⟩ := ih head htighter hop hnodup'
        obtain ⟨rfl, rfl⟩ := of_chainRest_of_none tail (hright hr _ List.mem_cons_self)
        exact ⟨d', d'', l, r, rfl, hl, hr⟩

/-! ## Suffixes -/

theorem of_suffixes_of_not_begins (h : Derives atEnd d (.suffixes y x) ts rest)
    (hcall : begins ts "(" = false) (hpipe : begins ts "|" = false) : x = y ∧ rest = ts := by
  cases h with
  | noSuffix => exact ⟨rfl, rfl⟩
  | call ht => cases hcall.symm.trans ht
  | filter ht | filterWith ht | filterAtEnd _ ht => cases hpipe.symm.trans ht

theorem of_suffixes_call (h : Derives atEnd d (.suffixes y x) (symbol "(" :: ts) rest) :
    ∃ d' d'' es us, Derives atEnd d' (.arguments es) ts us ∧
      Derives atEnd d'' (.suffixes (.call (Grammar.callee y) es) x) us rest := by
  cases h with
  | noSuffix hcall => cases (show true = false from hcall)
  | call _ head tail => exact ⟨_, _, _, _, head, tail⟩
  | filter ht | filterWith ht | filterAtEnd _ ht => exact absurd ht (by decide)

theorem of_suffixes_filter {name : Terminal}
    (h : Derives atEnd d (.suffixes y x) (symbol "|" :: name :: ts) rest)
    (hnone : begins ts "(" = false) :
    Derives atEnd d (.suffixes (.filter name.text [y]) x) ts rest := by
  cases h with
  | noSuffix _ hpipe => cases (show true = false from hpipe)
  | call ht => exact absurd ht (by decide)
  | filter _ _ tail => exact tail
  | filterWith _ ht' => cases hnone.symm.trans ht'

theorem of_suffixes_filterWith {name : Terminal}
    (h : Derives atEnd d (.suffixes y x) (symbol "|" :: name :: symbol "(" :: ts) rest) :
    ∃ d' d'' es us, Derives atEnd d' (.arguments es) ts us ∧
      Derives atEnd d'' (.suffixes (.filter name.text (y :: es)) x) us rest := by
  cases h with
  | noSuffix _ hpipe => cases (show true = false from hpipe)
  | call ht => exact absurd ht (by decide)
  | filter _ hnone => cases (show true = false from hnone)
  | filterWith _ _ head tail => exact ⟨_, _, _, _, head, tail⟩

/-! ## Lists -/

theorem of_arguments {es : List Expr} (h : Derives atEnd d (.arguments es) ts rest)
    (hsome : begins ts ")" = false) : ∃ d₁ d₂ e es' us t, es = e :: es' ∧
      Derives atEnd d₁ (.expression e) ts us ∧ Derives atEnd d₂ (.listRest es') us (t :: rest) ∧
      t.spells ")" = true := by
  cases h with
  | noArguments ht => cases hsome.symm.trans ht
  | someArguments _ head tail ht => exact ⟨_, _, _, _, _, _, rfl, head, tail, ht⟩

theorem of_elements {es : List Expr} (h : Derives atEnd d (.elements es) ts rest)
    (hsome : begins ts "]" = false) : ∃ d₁ d₂ e es' us, es = e :: es' ∧
      Derives atEnd d₁ (.expression e) ts us ∧
      ((begins us "," = false ∧ Derives atEnd d₂ (.elements es') us rest) ∨
        ∃ t vs, us = t :: vs ∧ t.spells "," = true ∧ Derives atEnd d₂ (.elements es') vs rest) := by
  cases h with
  | noElements ht => cases hsome.symm.trans ht
  | element _ head hnone tail => exact ⟨_, _, _, _, _, rfl, head, .inl ⟨hnone, tail⟩⟩
  | elementComma _ head ht tail =>
    exact ⟨_, _, _, _, _, rfl, head, .inr ⟨_, _, rfl, ht, tail⟩⟩

/-! ## Expressions -/

/-- An expression begins with an operand, and the suffixes are those of the operand if neither an
operator nor a choice comes after it. -/
theorem of_expression (h : Derives atEnd d (.expression x) ts rest) :
    ∃ d' y us, Derives atEnd d' (.operand y) ts us ∧
      (NoOperator us → begins us "?" = false →
        ∃ d'', Derives atEnd d'' (.suffixes y x) us rest) := by
  cases h with
  | expression head tail =>
    cases head with
    | noChoice head =>
      obtain ⟨d', y, us, hoperand, hend⟩ := of_chain head
      refine ⟨d', y, us, hoperand, fun hnone _ ↦ ?_⟩
      obtain ⟨rfl, rfl⟩ := hend hnone
      exact ⟨_, tail⟩
    | choice head ht =>
      obtain ⟨d', y, us, hoperand, hend⟩ := of_chain head
      refine ⟨d', y, us, hoperand, fun hnone hquestion ↦ ?_⟩
      obtain ⟨-, rfl⟩ := hend hnone
      cases hquestion.symm.trans ht

theorem of_expression_operator {op : BinaryOp} {s : String} {t : Terminal}
    (h : Derives atEnd d (.expression x) ts rest)
    (hleft : ∀ {d y vs}, Derives atEnd d (.operand y) ts vs → vs = t :: us)
    (hright : ∀ {d y vs}, Derives atEnd d (.operand y) us vs →
      NoOperator vs ∧ begins vs "?" = false)
    (ht : t.spells s) (hop : (s, op) ∈ BinaryOp.levels.flatten) :
    ∃ d₁ d₂ d₃ l r vs, Derives atEnd d₁ (.operand l) ts (t :: us) ∧
      Derives atEnd d₂ (.operand r) us vs ∧
      Derives atEnd d₃ (.suffixes (.binary op l r) x) vs rest := by
  cases h with
  | expression head tail =>
    cases head with
    | noChoice head =>
      obtain ⟨d₁, d₂, l, r, rfl, hl, hr⟩ :=
        of_chain_operator head hleft (fun h ↦ (hright h).1) ht hop (by decide)
      exact ⟨d₁, d₂, _, l, r, _, hl, hr, tail⟩
    | choice head hquestion =>
      obtain ⟨d₁, d₂, l, r, rfl, hl, hr⟩ :=
        of_chain_operator head hleft (fun h ↦ (hright h).1) ht hop (by decide)
      cases (hright hr).2.symm.trans hquestion

/-- An operand before a question mark is the condition of a choice, which goes before the suffixes
of an expression. -/
theorem of_expression_question (h : Derives atEnd d (.expression x) ts rest)
    (hleft : ∀ {d y vs}, Derives atEnd d (.operand y) ts vs → vs = symbol "?" :: us) :
    ∃ d₁ d₂ d₃ d₄ c a b t vs ws, Derives atEnd d₁ (.operand c) ts (symbol "?" :: us) ∧
      Derives atEnd d₂ (.expression a) us (t :: vs) ∧ t.spells ":" = true ∧
      Derives atEnd d₃ (.expression b) vs ws ∧
      Derives atEnd d₄ (.suffixes (.ternary c a b) x) ws rest := by
  have hnone : NoOperator (symbol "?" :: us) := noOperator_symbol (by decide) us
  cases h with
  | expression head tail =>
    cases head with
    | noChoice head hquestion =>
      obtain ⟨d₁, c, vs, hc, hend⟩ := of_chain head
      obtain rfl := hleft hc
      obtain ⟨-, rfl⟩ := hend hnone
      cases (show true = false from hquestion)
    | choice head _ middle ht' last =>
      obtain ⟨d₁, c, vs, hc, hend⟩ := of_chain head
      obtain rfl := hleft hc
      obtain ⟨rfl, heq⟩ := hend hnone
      cases heq
      exact ⟨d₁, _, _, _, _, _, _, _, _, _, hc, middle, ht', last, tail⟩

end Derives

end TemplateExpr
