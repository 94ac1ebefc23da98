import TemplateExpr.Proofs.Building
import TemplateExpr.Proofs.Literals
import TemplateExpr.Proofs.Sources

/-!
# The printed form of a tree

The infix form of an expression is cut into the terminals that its tree prescribes
(`Expr.lexes_chars`). That needs nothing of the tree but that its leaves and the names of its
filters are spelled as lexemes (`Expr.Spelled`): everything else in the form is a delimiter, an
operator or a blank, and no two of these run together.

## Operators before operands

A sign stands right before its operand, with no blank between them, and the two have to stay apart.
They do because no expression is printed with a character at its beginning that an operator could go
on with (`Expr.chars_eq_cons`). Everywhere else a blank or a delimiter comes between.

## Properties of nodes

A tree has a property at every node (`Expr.All`) if the node at the top has it and each of the parts
has it at every node. Like the trees themselves, the parts of a node come in lists, and the lemmas
for the constructors say what becomes of the list, so the property is taken apart by `simp`.
-/

namespace TemplateExpr

open Terminal Text

namespace Expr

/-! ## Trees -/

/-- The expressions that stand directly under a node. -/
def children : Expr → List Expr
  | literal _ | name _ => []
  | unary _ a => [a]
  | binary _ l r => [l, r]
  | ternary c a b => [c, a, b]
  | array es | comma es | filter _ es => es
  | call f es => f :: es

/-- Every node of a tree has a property. -/
inductive All (p : Expr → Prop) : Expr → Prop where
  | intro {e : Expr} (node : p e) (children : ∀ e' ∈ e.children, All p e') : All p e

namespace All

variable {p q : Expr → Prop} {e e' : Expr}

theorem node (h : All p e) : p e := by
  cases h with
  | intro node _ => exact node

theorem child (h : All p e) (he' : e' ∈ e.children) : All p e' := by
  cases h with
  | intro _ children => exact children e' he'

theorem mono (h : All p e) (hpq : ∀ e, p e → q e) : All q e := by
  induction h with
  | intro node _ ih => exact .intro (hpq _ node) ih

end All

section Nodes

variable {p : Expr → Prop} {e : Expr} {es : List Expr}

theorem all_iff : e.All p ↔ p e ∧ ∀ e' ∈ e.children, e'.All p :=
  ⟨fun h ↦ ⟨h.node, fun _ ↦ h.child⟩, fun h ↦ .intro h.1 h.2⟩

@[simp] theorem all_literal {v : Literal} : (literal v).All p ↔ p (literal v) := by
  rw [all_iff]
  exact and_iff_left nofun

@[simp] theorem all_name {n : String} : (name n).All p ↔ p (name n) := by
  rw [all_iff]
  exact and_iff_left nofun

@[simp] theorem all_unary {op : UnaryOp} : (unary op e).All p ↔ p (unary op e) ∧ e.All p := by
  rw [all_iff, children, List.forall_mem_singleton]

@[simp] theorem all_binary {op : BinaryOp} {l r : Expr} :
    (binary op l r).All p ↔ p (binary op l r) ∧ l.All p ∧ r.All p := by
  rw [all_iff, children, List.forall_mem_cons, List.forall_mem_singleton]

@[simp] theorem all_ternary {c a b : Expr} :
    (ternary c a b).All p ↔ p (ternary c a b) ∧ c.All p ∧ a.All p ∧ b.All p := by
  rw [all_iff, children, List.forall_mem_cons, List.forall_mem_cons, List.forall_mem_singleton]

@[simp] theorem all_array : (array es).All p ↔ p (array es) ∧ ∀ e ∈ es, e.All p := by
  rw [all_iff, children]

@[simp] theorem all_call : (call e es).All p ↔ p (call e es) ∧ e.All p ∧ ∀ e ∈ es, e.All p := by
  rw [all_iff, children, List.forall_mem_cons]

@[simp] theorem all_filter {n : String} :
    (filter n es).All p ↔ p (filter n es) ∧ ∀ e ∈ es, e.All p := by
  rw [all_iff, children]

end Nodes

end Expr

/-! ## The terminals of a tree -/

def Literal.terminal : Literal → Terminal
  | number d => ⟨.number, String.ofList d.chars⟩
  | float x => ⟨.number, String.ofList x.chars⟩
  | string s => ⟨.string, s⟩
  | boolean b => ⟨.identifier, (boolean b).text⟩
  | null => ⟨.identifier, null.text⟩

/-- The first terminal of a text. -/
def Terminal.ofName (n : String) : Terminal :=
  match (Source.ofString n).tokens with
  | .ok (t :: _) => t.terminal
  | _ => ⟨.eof, n⟩

namespace Expr

/-- A filter around the terminals of its arguments. -/
def filterTerminals (name : Terminal) : List (List Terminal) → List Terminal
  | [] => [symbol "(", symbol "|", name, symbol ")"]
  | [input] => symbol "(" :: (input ++ [symbol "|", name, symbol ")"])
  | input :: rest =>
    symbol "(" :: (input ++ symbol "|" :: name :: symbol "(" ::
      ([symbol ","].intercalate rest ++ [symbol ")", symbol ")"]))

mutual

/-- The terminals of the infix form of an expression. -/
def terminals : Expr → List Terminal
  | literal v => [v.terminal]
  | name n => [⟨.identifier, n⟩]
  | unary op a => symbol "(" :: symbol op.spelling :: (terminals a ++ [symbol ")"])
  | binary op l r =>
    symbol "(" :: (terminals l ++ symbol op.spelling :: (terminals r ++ [symbol ")"]))
  | ternary c a b =>
    symbol "(" :: (terminals c ++ symbol "?" ::
      (terminals a ++ symbol ":" :: (terminals b ++ [symbol ")"])))
  | array es => symbol "[" :: ([symbol ","].intercalate (terminalsList es) ++ [symbol "]"])
  | comma es => [symbol ","].intercalate (terminalsList es)
  | call f es =>
    let callee := match f.bareCallee? with
      | some n => [⟨.identifier, n⟩]
      | none => terminals f
    callee ++ symbol "(" :: ([symbol ","].intercalate (terminalsList es) ++ [symbol ")"])
  | filter n es => filterTerminals (.ofName n) (terminalsList es)

/-- The terminals of the infix forms of the expressions of a list. -/
def terminalsList : List Expr → List (List Terminal)
  | [] => []
  | e :: es => terminals e :: terminalsList es

end

/-! ## Leaves and names -/

/-- A text that is cut into a single token, a name, a number or a symbol, with that text. -/
def IsFilterName (n : String) : Prop :=
  ∃ t p, (Source.ofString n).tokens = .ok [t, Token.eof p] ∧
    t.kind ∈ [.identifier, .number, .symbol] ∧ t.text = n

theorem lexes_of_isFilterName {n : String} (h : IsFilterName n) :
    Lexes n.toList [.ofName n] ∧ (Terminal.ofName n).text = n := by
  obtain ⟨t, p, htokens, -, htext⟩ := h
  have hname : Terminal.ofName n = t.terminal := by rw [Terminal.ofName, htokens]
  obtain ⟨us, q, hus, hlexes⟩ := lexes_of_tokens htokens
  obtain ⟨rfl, -⟩ : [t] = us ∧ [Token.eof p] = [Token.eof q] := List.append_inj' hus rfl
  exact ⟨hname ▸ hlexes, hname ▸ htext⟩

theorem isFilterName_of_isName {n : String} (h : isName n.toList = true) : IsFilterName n := by
  obtain ⟨us, p, htokens, hus⟩ := tokens_of_lexes (.name h)
  obtain ⟨t, rfl, ht⟩ := List.map_eq_singleton_iff.1 hus
  have hkind : t.kind = .identifier := congrArg Terminal.kind ht
  exact ⟨t, p, htokens, by simp [hkind], congrArg Terminal.text ht⟩

/-- What a node has by itself is spelled as a lexeme that can be read back. -/
def Spelled : Expr → Prop
  | literal (.number d) => 0 ≤ d.coeff
  | literal (.float _) => False
  | literal (.string s) => ∀ c ∈ s.toList, isShown c = true
  | name n => isPlainName n = true
  | filter n _ => IsFilterName n
  | comma _ => False
  | _ => True

theorem of_bareCallee?_eq_some {f : Expr} {n : String} (h : f.bareCallee? = some n) :
    f = string n ∧ isPlainName n = true := by
  unfold bareCallee? at h
  split at h
  · split at h
    · next hplain =>
      cases h
      exact ⟨rfl, hplain⟩
    · cases h
  · cases h

section Call

variable {f : Expr} {n : String}

theorem chars_call_of_bare (h : f.bareCallee? = some n) (es : List Expr) :
    (call f es).chars = n.toList ++ '(' :: (commaSeparated (charsList es) ++ [')']) := by
  rw [chars, h]

theorem chars_call_of_not_bare (h : f.bareCallee? = none) (es : List Expr) :
    (call f es).chars = f.chars ++ '(' :: (commaSeparated (charsList es) ++ [')']) := by
  rw [chars, h]

theorem terminals_call_of_bare (h : f.bareCallee? = some n) (es : List Expr) :
    (call f es).terminals = ⟨.identifier, n⟩ :: symbol "(" ::
      ([symbol ","].intercalate (terminalsList es) ++ [symbol ")"]) := by
  rw [terminals, h]
  rfl

theorem terminals_call_of_not_bare (h : f.bareCallee? = none) (es : List Expr) :
    (call f es).terminals = f.terminals ++ symbol "(" ::
      ([symbol ","].intercalate (terminalsList es) ++ [symbol ")"]) := by
  rw [terminals, h]

end Call

/-! ## First characters -/

/-- What a printed expression begins with does not go on with a symbol before it. -/
theorem chars_eq_cons {e : Expr} (h : e.All Spelled) :
    ∃ c cs, e.chars = c :: cs ∧ Lexeme.joins c = false := by
  have hname : ∀ s : String, isPlainName s = true →
      ∃ c cs, s.toList = c :: cs ∧ Lexeme.joins c = false := by
    intro s hs
    have hjoins := Lexeme.joins_of_isName (isName_of_isPlainName hs) []
    obtain ⟨c, cs, hcs⟩ := List.exists_cons_of_ne_nil (l := s.toList) (by
      intro hnil
      exact absurd (isName_of_isPlainName hs) (by simp [hnil, isName]))
    exact ⟨c, cs, hcs, hjoins c (by simp [hcs])⟩
  induction h with
  | @intro e node children ih =>
    cases e with
    | literal v =>
      cases v with
      | number d =>
        obtain ⟨c, cs, hcs, hdigit⟩ := positional_eq_cons d.coeff.natAbs d.scale
        exact ⟨c, cs, (Decimal.chars_of_nonneg node).trans hcs,
          Lexeme.joins_of_isNameChar (isNameChar_of_isDigit hdigit)⟩
      | float => exact node.elim
      | string s => exact ⟨'"', _, rfl, rfl⟩
      | boolean b => cases b <;> exact ⟨_, _, rfl, rfl⟩
      | null => exact ⟨_, _, rfl, rfl⟩
    | name n => exact hname n node
    | unary | binary | ternary | array => exact ⟨_, _, rfl, rfl⟩
    | comma => exact node.elim
    | call f es =>
      -- a call begins with its function
      rw [chars]
      split
      · next n hn =>
        obtain ⟨c, cs, hcs, hjoins⟩ := hname n (of_bareCallee?_eq_some hn).2
        exact ⟨c, _, by rw [hcs, List.cons_append], hjoins⟩
      · obtain ⟨c, cs, hcs, hjoins⟩ := ih f List.mem_cons_self
        exact ⟨c, _, by rw [hcs, List.cons_append], hjoins⟩
    | filter n es =>
      rw [chars, filterChars.eq_def]
      split <;> exact ⟨_, _, rfl, rfl⟩

theorem joins_head?_chars {e : Expr} (h : e.All Spelled) (ds : List Char) :
    ∀ c ∈ (e.chars ++ ds).head?, Lexeme.joins c = false := by
  obtain ⟨c, cs, hcs, hjoins⟩ := chars_eq_cons h
  rw [hcs]
  exact Lexeme.joins_cons hjoins _

theorem lexes_literal {v : Literal} (h : Spelled (literal v)) : Lexes v.chars [v.terminal] := by
  cases v with
  | number d => exact .of_cut (Lexeme.cut_decimal h) nofun .nil
  | float => exact h.elim
  | string s =>
    have hpiece := Lexes.of_cut (Lexeme.cut_quotedChars h) nofun .nil
    rwa [String.ofList_toList] at hpiece
  | boolean b => cases b <;> exact .of_cut (Lexeme.cut_name rfl) nofun .nil
  | null => exact .of_cut (Lexeme.cut_name rfl) nofun .nil

theorem lexes_close : Lexes [')'] [symbol ")"] := .delimiter_append (s := ")") (by decide) .nil

/-! ## Nodes

The text of a node is cut into delimiters and operators and into whatever the texts of its parts are
cut into.
-/

section Nodes

variable {cs ds ns : List Char} {ts us vs : List Terminal} {css : List (List Char)}
  {tss : List (List Terminal)}

theorem lexes_unary {a : Expr} (op : UnaryOp) (h : Lexes a.chars ts)
    (hjoins : ∀ ds, ∀ c ∈ (a.chars ++ ds).head?, Lexeme.joins c = false) :
    Lexes (unary op a).chars (symbol "(" :: symbol op.spelling :: (ts ++ [symbol ")"])) := by
  rw [chars, List.append_assoc]
  -- no blank stands between the operator and its operand
  exact .delimiter_append (s := "(") (by decide) (.symbol_append op.spelling_mem_symbols
    (hjoins _) (h.append (breaks_cons rfl _) lexes_close))

theorem lexes_binary {l r : Expr} (op : BinaryOp) (hl : Lexes l.chars ts)
    (hr : Lexes r.chars us) : Lexes (binary op l r).chars
      (symbol "(" :: (ts ++ symbol op.spelling :: (us ++ [symbol ")"]))) := by
  have hright := hr.append (breaks_cons rfl _) lexes_close
  have hop := Lexes.symbol_append op.spelling_mem_symbols
    (Lexeme.joins_of_breaks (breaks_cons rfl _)) (hright.blank_cons (c := ' ') rfl)
  exact .delimiter_append (s := "(") (by decide)
    (hl.append (breaks_cons rfl _) (hop.blank_cons rfl))

theorem lexes_ternary {c a b : Expr} (hc : Lexes c.chars ts) (ha : Lexes a.chars us)
    (hb : Lexes b.chars vs) : Lexes (ternary c a b).chars (symbol "(" :: (ts ++ symbol "?" ::
      (us ++ symbol ":" :: (vs ++ [symbol ")"])))) := by
  have helse := hb.append (breaks_cons rfl _) lexes_close
  have hcolon := Lexes.delimiter_append (s := ":") (by decide) (helse.blank_cons (c := ' ') rfl)
  have hquestion := Lexes.delimiter_append (s := "?") (by decide)
    ((ha.append (breaks_cons rfl _) (hcolon.blank_cons (c := ' ') rfl)).blank_cons
      (c := ' ') rfl)
  exact .delimiter_append (s := "(") (by decide)
    (hc.append (breaks_cons rfl _) (hquestion.blank_cons rfl))

theorem lexes_list (h : List.Forall₂ Lexes css tss) :
    Lexes (commaSeparated css) ([symbol ","].intercalate tss) :=
  Lexes.intercalate h rfl

theorem lexes_call (h : Lexes cs ts) (hlist : List.Forall₂ Lexes css tss) :
    Lexes (cs ++ '(' :: (commaSeparated css ++ [')']))
      (ts ++ symbol "(" :: ([symbol ","].intercalate tss ++ [symbol ")"])) :=
  h.append (breaks_cons rfl _) ((lexes_list hlist).parentheses .nil)

theorem lexes_pipe (h : Lexes ds us) : Lexes ('|' :: ' ' :: ds) (symbol "|" :: us) :=
  .symbol_append (s := "|") (by decide) (Lexeme.joins_of_breaks (breaks_cons rfl _))
    (h.blank_cons rfl)

theorem lexes_filter_nil (hname : Lexes ns us) :
    Lexes (filterChars ns []) (symbol "(" :: symbol "|" :: (us ++ [symbol ")"])) :=
  .delimiter_append (s := "(") (by decide)
    (lexes_pipe (hname.append (breaks_cons rfl _) lexes_close))

theorem lexes_filter_input (h : Lexes cs ts) (hname : Lexes ns us) : Lexes (filterChars ns [cs])
    (symbol "(" :: (ts ++ symbol "|" :: (us ++ [symbol ")"]))) := by
  have hrest := lexes_pipe (hname.append (breaks_cons rfl _) lexes_close)
  exact .delimiter_append (s := "(") (by decide)
    (h.append (breaks_cons rfl _) (hrest.blank_cons rfl))

theorem lexes_filter_with (h : Lexes cs ts) (hname : Lexes ns us)
    (hlist : List.Forall₂ Lexes (ds :: css) tss) : Lexes (filterChars ns (cs :: ds :: css))
      (symbol "(" :: (ts ++ symbol "|" :: (us ++ symbol "(" ::
        ([symbol ","].intercalate tss ++ [symbol ")", symbol ")"])))) := by
  have hrest := lexes_pipe (hname.append (breaks_cons rfl _)
    ((lexes_list hlist).parentheses lexes_close))
  exact .delimiter_append (s := "(") (by decide)
    (h.append (breaks_cons rfl _) (hrest.blank_cons rfl))

end Nodes

/-! ## Whole trees -/

/-- The texts of some expressions are cut into their terminals. -/
theorem forall₂_lexes {es : List Expr} (h : ∀ e ∈ es, Lexes e.chars e.terminals) :
    List.Forall₂ Lexes (charsList es) (terminalsList es) := by
  induction es with
  | nil => exact .nil
  | cons e es ih =>
    exact .cons (h e List.mem_cons_self) (ih fun e he ↦ h e (List.mem_cons_of_mem _ he))

/-- A filter is cut into its name and the terminals of its arguments. -/
theorem lexes_filter {n : String} {es : List Expr} (hn : IsFilterName n)
    (h : ∀ e ∈ es, Lexes e.chars e.terminals) :
    Lexes (filterChars n.toList (charsList es))
      (filterTerminals (.ofName n) (terminalsList es)) := by
  have hname := (lexes_of_isFilterName hn).1
  cases es with
  | nil => exact lexes_filter_nil hname
  | cons e es =>
    have hinput := h e List.mem_cons_self
    have hlist := forall₂_lexes fun e he ↦ h e (List.mem_cons_of_mem _ he)
    cases es with
    | nil => exact lexes_filter_input hinput hname
    | cons e' es => exact lexes_filter_with hinput hname hlist

/-- The infix form of an expression is cut into the terminals of its tree. -/
theorem lexes_chars {e : Expr} (h : e.All Spelled) : Lexes e.chars e.terminals := by
  induction h with
  | @intro e node children ih =>
    cases e with
    | literal v => exact lexes_literal node
    | name n => exact .name (isName_of_isPlainName node)
    | unary op a =>
      exact lexes_unary op (ih a (by simp [Expr.children]))
        (joins_head?_chars (children a (by simp [Expr.children])))
    | binary op l r =>
      exact lexes_binary op (ih l (by simp [Expr.children])) (ih r (by simp [Expr.children]))
    | ternary c a b =>
      exact lexes_ternary (ih c (by simp [Expr.children])) (ih a (by simp [Expr.children]))
        (ih b (by simp [Expr.children]))
    | array es => exact (lexes_list (forall₂_lexes ih)).brackets .nil
    | comma => exact node.elim
    | call f es =>
      have hlist := forall₂_lexes fun e he ↦ ih e (List.mem_cons_of_mem _ he)
      cases hf : f.bareCallee? with
      | some n =>
        have hname := Lexes.name (isName_of_isPlainName (of_bareCallee?_eq_some hf).2)
        rw [chars_call_of_bare hf, terminals_call_of_bare hf]
        exact lexes_call hname hlist
      | none =>
        rw [chars_call_of_not_bare hf, terminals_call_of_not_bare hf]
        exact lexes_call (ih f List.mem_cons_self) hlist
    | filter n es => exact lexes_filter node ih

end Expr

end TemplateExpr
