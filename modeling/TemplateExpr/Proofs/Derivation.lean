import Mathlib
import TemplateExpr.Grammar

/-!
# Derivations

The grammar as a relation. `Derives atEnd d p ts rest` says that the terminals of `ts` before
`rest` are the phrase `p`, and that `d` levels are open at once while they are read, counted from
the level at which the phrase begins. A phrase names the tree that it stands for, so a derivation
determines a tree as well as a stretch of terminals.

## Longest match

What is left after a phrase is part of the relation, because the grammar is read with longest
match: a chain, a list or an optional part ends only where the next terminal cannot continue it.
That is one condition on the head of `rest`, put on the rules that end such a part. In the same way
a terminal that spells a delimiter is never an operand where the delimiter is allowed.

## The end of the stream

The parameter `atEnd` says what becomes of a filter without a name. With `none`, the name of a
filter is a terminal like any other. With `some name`, a pipe that is the last terminal of the
stream makes a filter of that name, and nothing else changes.
-/

namespace TemplateExpr

/-! ## Terminals -/

/-- What the grammar sees of a token: its kind and its text, but not its place. -/
structure Terminal where
  /-- The kind. -/
  kind : TokenKind
  /-- The text. -/
  text : String
deriving DecidableEq

/-- The terminal of a token. -/
def Token.terminal (t : Token) : Terminal := ⟨t.kind, t.text⟩

namespace Terminal

/-- Whether a terminal can be read as the given operator, delimiter or word. -/
def spells (t : Terminal) (lexeme : String) : Bool :=
  match t.kind with
  | .symbol | .identifier | .number => t.text = lexeme
  | .string | .eof => false

/-- Whether the first of some terminals can be read as the given operator, delimiter or word. -/
def begins (ts : List Terminal) (lexeme : String) : Bool := ts.head?.any (·.spells lexeme)

def operator? (operators : List (String × BinaryOp)) (ts : List Terminal) : Option BinaryOp :=
  (operators.find? fun (lexeme, _) ↦ begins ts lexeme).map Prod.snd

/-! ### Spelling -/

theorem text_of_spells {t : Terminal} {lexeme : String} (h : t.spells lexeme) :
    t.text = lexeme := by
  unfold spells at h
  split at h <;> simp_all

theorem spells_eq_false_of_text_ne {t : Terminal} {lexeme : String} (h : t.text ≠ lexeme) :
    t.spells lexeme = false := by
  cases ht : t.spells lexeme with
  | false => rfl
  | true => exact absurd (text_of_spells ht) h

theorem spells_terminal (t : Token) (lexeme : String) :
    t.terminal.spells lexeme = t.spells lexeme := by
  obtain ⟨kind, text, position⟩ := t
  cases kind <;> rfl

/-- The terminal of a symbol. -/
def symbol (s : String) : Terminal := ⟨.symbol, s⟩

/-- A terminal spells one thing only. -/
theorem eq_of_spells {t : Terminal} {lexeme lexeme' : String} (h : t.spells lexeme)
    (h' : t.spells lexeme') : lexeme = lexeme' :=
  (text_of_spells h).symm.trans (text_of_spells h')

theorem spells_eq_false {t : Terminal} {lexeme lexeme' : String} (h : t.spells lexeme)
    (hne : lexeme ≠ lexeme') : t.spells lexeme' = false := by
  cases h' : t.spells lexeme' with
  | false => rfl
  | true => exact absurd (eq_of_spells h h') hne

/-! ### The first of some terminals -/

@[simp] theorem begins_nil (lexeme : String) : begins [] lexeme = false := rfl

@[simp] theorem begins_cons (t : Terminal) (ts : List Terminal) (lexeme : String) :
    begins (t :: ts) lexeme = t.spells lexeme := rfl

theorem begins_eq_true_iff {ts : List Terminal} {lexeme : String} :
    begins ts lexeme = true ↔ ∃ t us, ts = t :: us ∧ t.spells lexeme = true := by
  cases ts with
  | nil => simp
  | cons t us => simp

theorem begins_append_of_ne_nil {ts : List Terminal} (h : ts ≠ []) (us : List Terminal)
    (lexeme : String) : begins (ts ++ us) lexeme = begins ts lexeme := by
  cases ts with
  | nil => exact absurd rfl h
  | cons t ts => rfl

theorem begins_append {ts us : List Terminal} {lexeme : String} (h : begins ts lexeme = false)
    (hus : ts = [] → begins us lexeme = false) : begins (ts ++ us) lexeme = false := by
  cases ts with
  | nil => exact hus rfl
  | cons t ts => exact h

theorem operator?_append {ts us : List Terminal} {operators : List (String × BinaryOp)}
    (h : operator? operators ts = none) (hus : ts = [] → operator? operators us = none) :
    operator? operators (ts ++ us) = none := by
  cases ts with
  | nil => exact hus rfl
  | cons t ts => exact h

@[simp] theorem operator?_nil (operators : List (String × BinaryOp)) :
    operator? operators [] = none := by
  simp [operator?]

end Terminal

open Terminal

/-! ## Phrases -/

/-- What a stretch of terminals can be read as. -/
inductive Phrase where
  /-- An expression. -/
  | expression (e : Expr)
  /-- Calls and filters after the expression `before`, which make it the expression `after`. -/
  | suffixes (before after : Expr)
  /-- The arguments of a call after its opening parenthesis, up to the closing one. -/
  | arguments (es : List Expr)
  /-- The rest of a list after one of its elements. -/
  | listRest (es : List Expr)
  /-- The elements of an array after its opening bracket, up to the closing one. -/
  | elements (es : List Expr)
  /-- A chain, or a choice that it decides. -/
  | ternary (e : Expr)
  /-- Operands with operators of some levels between them, the loosest level first. -/
  | chain (levels : List (List (String × BinaryOp))) (e : Expr)
  /-- Operators and operands of one level after the operand `left`, with the levels tighter than
  it, which make `left` the expression `e`. -/
  | chainRest (operators : List (String × BinaryOp)) (tighter : List (List (String × BinaryOp)))
    (left e : Expr)
  /-- An operand of a binary operator. -/
  | operand (e : Expr)

namespace Phrase

/-- How many terminals a phrase has at least. -/
def least : Phrase → Nat
  | suffixes .. | listRest _ | chainRest .. => 0
  | _ => 1

/-- The levels of operators that a phrase is made of. -/
def levels : Phrase → List (List (String × BinaryOp))
  | chain levels _ => levels
  | chainRest operators tighter _ _ => operators :: tighter
  | _ => []

/-- Whether a phrase goes on after a comma. -/
def isListRest : Phrase → Bool
  | listRest _ => true
  | _ => false

end Phrase

/-! ## The grammar -/

/-- The grammar: the terminals of a list before the rest of it are a phrase, with a number of levels
open at once. -/
inductive Derives (atEnd : Option String) :
    Nat → Phrase → List Terminal → List Terminal → Prop where
  /-- `T` and its suffixes. -/
  | expression {d d' : Nat} {e e' : Expr} {ts us rest : List Terminal}
      (head : Derives atEnd d (.ternary e) ts us)
      (tail : Derives atEnd d' (.suffixes e e') us rest) :
      Derives atEnd (max d d' + 1) (.expression e') ts rest
  /-- No further suffix. -/
  | noSuffix {e : Expr} {rest : List Terminal} (hcall : begins rest "(" = false)
      (hpipe : begins rest "|" = false) : Derives atEnd 0 (.suffixes e e) rest rest
  /-- `'(' [E {',' E}] ')'` and further suffixes. -/
  | call {d d' : Nat} {e e' : Expr} {es : List Expr} {t : Terminal} {ts us rest : List Terminal}
      (ht : t.spells "(") (head : Derives atEnd d (.arguments es) ts us)
      (tail : Derives atEnd d' (.suffixes (.call (Grammar.callee e) es) e') us rest) :
      Derives atEnd (max d d') (.suffixes e e') (t :: ts) rest
  /-- `'|' N` and further suffixes. -/
  | filter {d : Nat} {e e' : Expr} {t name : Terminal} {ts rest : List Terminal}
      (ht : t.spells "|") (hnone : begins ts "(" = false)
      (tail : Derives atEnd d (.suffixes (.filter name.text [e]) e') ts rest) :
      Derives atEnd d (.suffixes e e') (t :: name :: ts) rest
  /-- `'|' N '(' [E {',' E}] ')'` and further suffixes. -/
  | filterWith {d d' : Nat} {e e' : Expr} {es : List Expr} {t name t' : Terminal}
      {ts us rest : List Terminal} (ht : t.spells "|") (ht' : t'.spells "(")
      (head : Derives atEnd d (.arguments es) ts us)
      (tail : Derives atEnd d' (.suffixes (.filter name.text (e :: es)) e') us rest) :
      Derives atEnd (max d d') (.suffixes e e') (t :: name :: t' :: ts) rest
  /-- `'|'` at the end of the stream. -/
  | filterAtEnd {e : Expr} {t : Terminal} {name : String} (hname : name ∈ atEnd)
      (ht : t.spells "|") : Derives atEnd 0 (.suffixes e (.filter name [e])) [t] []
  /-- `')'`. -/
  | noArguments {t : Terminal} {rest : List Terminal} (ht : t.spells ")") :
      Derives atEnd 0 (.arguments []) (t :: rest) rest
  /-- `E {',' E} ')'`. -/
  | someArguments {d d' : Nat} {e : Expr} {es : List Expr} {t : Terminal}
      {ts us rest : List Terminal} (hsome : begins ts ")" = false)
      (head : Derives atEnd d (.expression e) ts us)
      (tail : Derives atEnd d' (.listRest es) us (t :: rest)) (ht : t.spells ")") :
      Derives atEnd (max d d') (.arguments (e :: es)) ts rest
  /-- The end of a list. -/
  | listEnd {rest : List Terminal} (hend : begins rest "," = false) :
      Derives atEnd 0 (.listRest []) rest rest
  /-- `',' E {',' E}`. -/
  | listMore {d d' : Nat} {e : Expr} {es : List Expr} {t : Terminal} {ts us rest : List Terminal}
      (ht : t.spells ",") (head : Derives atEnd d (.expression e) ts us)
      (tail : Derives atEnd d' (.listRest es) us rest) :
      Derives atEnd (max d d') (.listRest (e :: es)) (t :: ts) rest
  /-- `']'`. -/
  | noElements {t : Terminal} {rest : List Terminal} (ht : t.spells "]") :
      Derives atEnd 0 (.elements []) (t :: rest) rest
  /-- `E {E [',']} ']'`. -/
  | element {d d' : Nat} {e : Expr} {es : List Expr} {ts us rest : List Terminal}
      (hsome : begins ts "]" = false) (head : Derives atEnd d (.expression e) ts us)
      (hnone : begins us "," = false) (tail : Derives atEnd d' (.elements es) us rest) :
      Derives atEnd (max d d') (.elements (e :: es)) ts rest
  /-- `E ',' {E [',']} ']'`. -/
  | elementComma {d d' : Nat} {e : Expr} {es : List Expr} {t : Terminal}
      {ts us rest : List Terminal} (hsome : begins ts "]" = false)
      (head : Derives atEnd d (.expression e) ts (t :: us)) (ht : t.spells ",")
      (tail : Derives atEnd d' (.elements es) us rest) :
      Derives atEnd (max d d') (.elements (e :: es)) ts rest
  /-- `Or`. -/
  | noChoice {d : Nat} {e : Expr} {ts rest : List Terminal}
      (head : Derives atEnd d (.chain BinaryOp.levels e) ts rest)
      (hend : begins rest "?" = false) : Derives atEnd d (.ternary e) ts rest
  /-- `Or '?' E ':' E`. -/
  | choice {d d' d'' : Nat} {c a b : Expr} {t t' : Terminal} {ts us vs rest : List Terminal}
      (head : Derives atEnd d (.chain BinaryOp.levels c) ts (t :: us)) (ht : t.spells "?")
      (middle : Derives atEnd d' (.expression a) us (t' :: vs)) (ht' : t'.spells ":")
      (tail : Derives atEnd d'' (.expression b) vs rest) :
      Derives atEnd (max d (max d' d'')) (.ternary (.ternary c a b)) ts rest
  /-- An operand, where no level of operators is left. -/
  | single {d : Nat} {e : Expr} {ts rest : List Terminal}
      (head : Derives atEnd d (.operand e) ts rest) : Derives atEnd d (.chain [] e) ts rest
  /-- A chain of the tighter levels and what its own level makes of it. -/
  | chain {d d' : Nat} {operators : List (String × BinaryOp)}
      {tighter : List (List (String × BinaryOp))} {left e : Expr} {ts us rest : List Terminal}
      (head : Derives atEnd d (.chain tighter left) ts us)
      (tail : Derives atEnd d' (.chainRest operators tighter left e) us rest) :
      Derives atEnd (max d d') (.chain (operators :: tighter) e) ts rest
  /-- No further operator. -/
  | chainEnd {operators : List (String × BinaryOp)} {tighter : List (List (String × BinaryOp))}
      {e : Expr} {rest : List Terminal} (hend : operator? operators rest = none) :
      Derives atEnd 0 (.chainRest operators tighter e e) rest rest
  /-- An operator, its right operand and further operators. -/
  | chainMore {d d' : Nat} {operators : List (String × BinaryOp)}
      {tighter : List (List (String × BinaryOp))} {op : BinaryOp} {left right e : Expr}
      {t : Terminal} {ts us rest : List Terminal} (hop : operator? operators (t :: ts) = some op)
      (head : Derives atEnd d (.chain tighter right) ts us)
      (tail : Derives atEnd d' (.chainRest operators tighter (.binary op left right) e) us rest) :
      Derives atEnd (max d d') (.chainRest operators tighter left e) (t :: ts) rest
  /-- `'(' E ')'`. -/
  | parentheses {d : Nat} {e : Expr} {t t' : Terminal} {ts rest : List Terminal}
      (ht : t.spells "(") (head : Derives atEnd d (.expression e) ts (t' :: rest))
      (ht' : t'.spells ")") : Derives atEnd d (.operand e) (t :: ts) rest
  /-- `'[' {E [',']} ']'`. -/
  | array {d : Nat} {es : List Expr} {t : Terminal} {ts rest : List Terminal}
      (ht : t.spells "[") (head : Derives atEnd d (.elements es) ts rest) :
      Derives atEnd d (.operand (.array es)) (t :: ts) rest
  /-- One of the symbols `- + ~ !` and an operand. -/
  | unary {d : Nat} {op : UnaryOp} {a : Expr} {t : Terminal} {ts rest : List Terminal}
      (hkind : t.kind = .symbol) (hop : UnaryOp.ofSpelling? t.text = some op)
      (head : Derives atEnd d (.operand a) ts rest) :
      Derives atEnd (d + 1) (.operand (.unary op a)) (t :: ts) rest
  /-- A number that can be read as a literal. -/
  | number {v : Literal} {t : Terminal} {rest : List Terminal} (hkind : t.kind = .number)
      (hv : Literal.ofNumber? t.text.toList = some v) :
      Derives atEnd 0 (.operand (.literal v)) (t :: rest) rest
  /-- A string. -/
  | string {t : Terminal} {rest : List Terminal} (hkind : t.kind = .string) :
      Derives atEnd 0 (.operand (.string t.text)) (t :: rest) rest
  /-- A word that is no delimiter here. -/
  | word {t : Terminal} {rest : List Terminal} (hkind : t.kind = .identifier)
      (hparen : t.spells "(" = false) (hbracket : t.spells "[" = false) :
      Derives atEnd 0 (.operand (Grammar.word t.text)) (t :: rest) rest

namespace Derives

variable {atEnd : Option String} {d : Nat} {p : Phrase} {ts rest : List Terminal}

/-! ## What a derivation leaves -/

/-- A phrase takes its terminals off the front of the list. -/
theorem rest_suffix (h : Derives atEnd d p ts rest) : rest <:+ ts := by
  induction h with
  | expression _ _ ih ih' | chain _ _ ih ih' => exact ih'.trans ih
  | noSuffix | listEnd | chainEnd => exact List.suffix_refl _
  | call _ _ _ ih ih' | chainMore _ _ _ ih ih' | listMore _ _ _ ih ih' =>
    exact (ih'.trans ih).trans (List.suffix_cons _ _)
  | filter _ _ _ ih => exact ih.trans ((List.suffix_cons _ _).trans (List.suffix_cons _ _))
  | filterWith _ _ _ _ ih ih' =>
    exact (ih'.trans ih).trans
      ((List.suffix_cons _ _).trans ((List.suffix_cons _ _).trans (List.suffix_cons _ _)))
  | filterAtEnd => exact List.nil_suffix
  | noArguments | noElements | number | string | word => exact List.suffix_cons _ _
  | someArguments _ _ _ _ ih ih' => exact (List.suffix_cons _ _).trans (ih'.trans ih)
  | element _ _ _ _ ih ih' => exact ih'.trans ih
  | elementComma _ _ _ _ ih ih' => exact (ih'.trans (List.suffix_cons _ _)).trans ih
  | noChoice _ _ ih => exact ih
  | choice _ _ _ _ _ ih ih' ih'' =>
    exact ((ih''.trans (List.suffix_cons _ _)).trans ih').trans ((List.suffix_cons _ _).trans ih)
  | single _ ih => exact ih
  | parentheses _ _ _ ih => exact ((List.suffix_cons _ _).trans ih).trans (List.suffix_cons _ _)
  | array _ _ ih | unary _ _ _ ih => exact ih.trans (List.suffix_cons _ _)

theorem length_add_least_le (h : Derives atEnd d p ts rest) :
    rest.length + p.least ≤ ts.length := by
  induction h <;> simp only [Phrase.least, List.length_cons, List.length_nil] at * <;> omega

theorem rest_eq_nil_of (h : Derives atEnd d p ts rest) (hts : ts = []) : rest = [] := by
  subst hts
  exact List.suffix_nil.1 h.rest_suffix

theorem ne_nil_of_least (h : Derives atEnd d p ts rest) (hp : p.least = 1) : ts ≠ [] := by
  rintro rfl
  have := h.length_add_least_le
  simp [hp] at this

end Derives

end TemplateExpr
