import TemplateExpr.Proofs.Printing

/-!
# The order of words

Printing groups the words of a text anew and keeps their order. What is compared is the terminals of
a text with the marks left out that only group, and with one spelling for each operator
(`Terminal.words`). The terminals from which an expression has been read and those of its printed
form have the same words (`Expr.words_tokens_text`).

## The invariant

The invariant is on the expression that has been put together so far, against the terminals that
have been read for it: its printed form is cut into the same words (`Expr.Retells`). A suffix and an
operator take such an expression with the words before them and make one with their own words added
at the end, so the words never have to be moved.

## What goes with it

Three facts of the printed form go with the invariant: nothing in it merges with a prefix operator
before it, a function is printed before its arguments as it is printed elsewhere, and the name of a
filter may be any word, even none.
-/

namespace TemplateExpr

open Terminal Text

namespace Terminal

/-! ## Words -/

/-- The one spelling of what is spelled in two ways. -/
def canonical (s : String) : String :=
  if s = "or" then "||" else if s = "and" then "&&" else s

def groupers : List String := ["(", ")", ","]

/-- What terminals say in their order, apart from how they are grouped. -/
def words (ts : List Terminal) : List String :=
  ((ts.map text).filter (· ∉ groupers)).map canonical

variable {t : Terminal} {s : String}

@[simp] theorem words_nil : words [] = [] := rfl

@[simp] theorem words_append (ts us : List Terminal) : words (ts ++ us) = words ts ++ words us := by
  rw [words, List.map_append, List.filter_append, List.map_append]
  rfl

theorem words_cons (t : Terminal) (ts : List Terminal) : words (t :: ts) = words [t] ++ words ts :=
  words_append [t] ts

theorem words_of_spells (h : t.spells s) (ts : List Terminal) :
    words (t :: ts) = words (symbol s :: ts) := by
  obtain rfl := text_of_spells h
  rfl

theorem words_grouper (hs : s ∈ groupers) (ts : List Terminal) :
    words (symbol s :: ts) = words ts := by
  simp [words, symbol, hs]

@[simp] theorem words_opening (ts : List Terminal) : words (symbol "(" :: ts) = words ts :=
  words_grouper (by decide) ts

@[simp] theorem words_closing (ts : List Terminal) : words (symbol ")" :: ts) = words ts :=
  words_grouper (by decide) ts

@[simp] theorem words_comma (ts : List Terminal) : words (symbol "," :: ts) = words ts :=
  words_grouper (by decide) ts

theorem words_intercalate (tss : List (List Terminal)) :
    words ([symbol ","].intercalate tss) = words tss.flatten := by
  induction tss with
  | nil => rfl
  | cons ts tss ih =>
    cases tss with
    | nil => simp
    | cons us tss =>
      rw [List.intercalate_cons_cons, List.append_assoc, words_append, List.singleton_append,
        words_comma, ih, ← words_append]
      rfl

/-! ## Operators -/

/-- The operator that a terminal is read as is printed as the same word. -/
theorem words_of_operator? {operators : List (String × BinaryOp)} {op : BinaryOp}
    {ts : List Terminal} (h : operator? operators (t :: ts) = some op)
    (hoperators : operators ∈ BinaryOp.levels) (us : List Terminal) :
    words (t :: us) = words (symbol op.spelling :: us) := by
  have hall : ∀ operators ∈ BinaryOp.levels, ∀ p ∈ operators,
      words [symbol p.1] = words [symbol p.2.spelling] := by decide
  rw [operator?, Option.map_eq_some_iff] at h
  obtain ⟨⟨lexeme, op'⟩, hfind, rfl⟩ := h
  have hspells : t.spells lexeme = true := by
    simpa using List.find?_some hfind
  rw [words_of_spells hspells, words_cons, words_cons (symbol op'.spelling),
    hall operators hoperators _ (List.mem_of_find?_eq_some hfind)]

end Terminal

namespace Expr

/-! ## What is printed of an expression -/

/-- The printed form of an expression has the given words, and can be printed on in the ways in
which reading goes on. -/
structure Retells (e : Expr) (ws : List String) : Prop where
  /-- The form is cut into terminals with these words. -/
  lexes : ∃ ts, Lexes e.chars ts ∧ words ts = ws
  /-- A prefix operator may stand before the form. -/
  joins : ∀ ds, ∀ c ∈ (e.chars ++ ds).head?, Lexeme.joins c = false
  /-- Arguments may stand after the form. -/
  called : ∀ es, (call (Grammar.callee e) es).chars =
    e.chars ++ '(' :: (commaSeparated (charsList es) ++ [')'])

/-- The printed forms of some expressions have the given words, one after the other. -/
inductive RetellsAll : List Expr → List String → Prop where
  /-- No expression. -/
  | nil : RetellsAll [] []
  /-- An expression and others. -/
  | cons {e : Expr} {es : List Expr} {ws ws' : List String} (head : Retells e ws)
      (tail : RetellsAll es ws') : RetellsAll (e :: es) (ws ++ ws')

theorem RetellsAll.lexes {es : List Expr} {ws : List String} (h : RetellsAll es ws) :
    ∃ tss, List.Forall₂ Lexes (charsList es) tss ∧ words ([symbol ","].intercalate tss) = ws := by
  induction h with
  | nil => exact ⟨[], .nil, rfl⟩
  | cons head _ ih =>
    obtain ⟨ts, hlexes, rfl⟩ := head.lexes
    obtain ⟨tss, hall, rfl⟩ := ih
    refine ⟨ts :: tss, .cons hlexes hall, ?_⟩
    rw [words_intercalate, words_intercalate, List.flatten_cons, words_append]

namespace Retells

variable {e a l r c b f : Expr} {es : List Expr} {ws ws' ws'' : List String} {n : String}

/-! ## Nodes -/

theorem name (h : isPlainName n = true) : Retells (name n) (words [⟨.identifier, n⟩]) where
  lexes := ⟨_, .name (isName_of_isPlainName h), rfl⟩
  joins := Lexeme.joins_of_isName (isName_of_isPlainName h)
  called es := chars_call_of_bare (f := string n) (if_pos h) es

theorem word (h : isName n.toList = true) :
    Retells (Grammar.word n) (words [⟨.identifier, n⟩]) := by
  rw [Grammar.word]
  split
  · next v hv =>
    have htext : ∀ v, Literal.ofKeyword? n = some v → v.chars = n.toList ∧
        (literal v).bareCallee? = none := by
      intro v hv
      rw [Literal.ofKeyword?.eq_def] at hv
      split at hv <;> cases hv <;> exact ⟨rfl, rfl⟩
    obtain ⟨hchars, hbare⟩ := htext v hv
    have hchars' : (literal v).chars = n.toList := hchars
    refine ⟨⟨_, ?_, rfl⟩, ?_, chars_call_of_not_bare hbare⟩
    · rw [hchars']
      exact .name h
    · rw [hchars']
      exact Lexeme.joins_of_isName h
  · next hkeyword =>
    exact name (by rw [isPlainName, h, hkeyword]; rfl)

theorem unary (op : UnaryOp) (h : Retells a ws) :
    Retells (unary op a) (words [symbol op.spelling] ++ ws) := by
  obtain ⟨ts, hlexes, rfl⟩ := h.lexes
  refine ⟨⟨_, lexes_unary op hlexes h.joins, ?_⟩, fun _ ↦ Lexeme.joins_cons rfl _,
    chars_call_of_not_bare rfl⟩
  rw [words_opening, words_cons]
  simp

theorem binary (op : BinaryOp) (hl : Retells l ws) (hr : Retells r ws') :
    Retells (binary op l r) (ws ++ (words [symbol op.spelling] ++ ws')) := by
  obtain ⟨ts, hlexes, rfl⟩ := hl.lexes
  obtain ⟨us, hlexes', rfl⟩ := hr.lexes
  refine ⟨⟨_, lexes_binary op hlexes hlexes', ?_⟩, fun _ ↦ Lexeme.joins_cons rfl _,
    chars_call_of_not_bare rfl⟩
  rw [words_opening, words_append, words_cons (symbol op.spelling)]
  simp

theorem ternary (hc : Retells c ws) (ha : Retells a ws') (hb : Retells b ws'') :
    Retells (ternary c a b)
      (ws ++ (words [symbol "?"] ++ (ws' ++ (words [symbol ":"] ++ ws'')))) := by
  obtain ⟨ts, hlexes, rfl⟩ := hc.lexes
  obtain ⟨us, hlexes', rfl⟩ := ha.lexes
  obtain ⟨vs, hlexes'', rfl⟩ := hb.lexes
  refine ⟨⟨_, lexes_ternary hlexes hlexes' hlexes'', ?_⟩, fun _ ↦ Lexeme.joins_cons rfl _,
    chars_call_of_not_bare rfl⟩
  rw [words_opening, words_append, words_cons (symbol "?"), words_append, words_cons (symbol ":")]
  simp

theorem array (h : RetellsAll es ws) :
    Retells (array es) (words [symbol "["] ++ (ws ++ words [symbol "]"])) := by
  obtain ⟨tss, hall, rfl⟩ := h.lexes
  refine ⟨⟨_, (lexes_list hall).brackets .nil, ?_⟩, fun _ ↦ Lexeme.joins_cons rfl _,
    chars_call_of_not_bare rfl⟩
  rw [words_cons, words_append]

theorem call (hf : Retells f ws) (h : RetellsAll es ws') :
    Retells (call (Grammar.callee f) es) (ws ++ ws') := by
  obtain ⟨ts, hlexes, rfl⟩ := hf.lexes
  obtain ⟨tss, hall, rfl⟩ := h.lexes
  have hchars := hf.called es
  refine ⟨⟨_, hchars ▸ lexes_call hlexes hall, ?_⟩, fun ds ↦ ?_, chars_call_of_not_bare rfl⟩
  · simp
  · rw [hchars, List.append_assoc]
    exact hf.joins _

/-- The name of a filter may be anything that is cut into terminals. -/
theorem filter {us : List Terminal} (hname : Lexes n.toList us) (h : Retells e ws)
    (h' : RetellsAll es ws') :
    Retells (filter n (e :: es)) (ws ++ (words [symbol "|"] ++ (words us ++ ws'))) := by
  obtain ⟨ts, hlexes, rfl⟩ := h.lexes
  have hall := h'.lexes
  have hchars : (Expr.filter n (e :: es)).chars =
      filterChars n.toList (e.chars :: charsList es) := by
    rw [chars, charsList]
  have hjoins : ∀ ds, ∀ c ∈ ((Expr.filter n (e :: es)).chars ++ ds).head?,
      Lexeme.joins c = false := by
    rw [hchars, filterChars.eq_def]
    cases charsList es <;> exact fun _ ↦ Lexeme.joins_cons rfl _
  refine ⟨?_, hjoins, chars_call_of_not_bare rfl⟩
  rw [hchars]
  -- the parentheses of the arguments are printed only if there are some
  cases h' with
  | nil =>
    refine ⟨_, lexes_filter_input hlexes hname, ?_⟩
    rw [words_opening, words_append, words_cons (symbol "|")]
    simp
  | cons =>
    obtain ⟨tss, hall, hwords⟩ := hall
    refine ⟨_, lexes_filter_with hlexes hname hall, ?_⟩
    rw [words_opening, words_append, words_cons (symbol "|"), ← hwords]
    simp

end Retells

end Expr

/-! ## What is read and printed again -/

/-- A name or a symbol, as a text may have it. -/
structure Terminal.Plain (t : Terminal) : Prop where
  /-- The text is a lexeme. -/
  lexical : t.Lexical
  /-- The terminal is a name or a symbol. -/
  kind : t.kind ∈ [TokenKind.identifier, .symbol]

theorem Terminal.Plain.lexes {t : Terminal} (h : t.Plain) : Lexes t.text.toList [t] := by
  obtain ⟨kind, text⟩ := t
  obtain ⟨hlexical, hkind⟩ := h
  rcases List.mem_pair.1 hkind with rfl | rfl
  · exact .name hlexical
  · have hsymbol : Lexes (text.toList ++ []) [symbol text] := .symbol_append hlexical nofun .nil
    rwa [List.append_nil] at hsymbol

/-- A phrase that says the given words is printed with these words, after those of what it goes on
from. -/
def Phrase.Retold (ws : List String) : Phrase → Prop
  | expression e | ternary e | chain _ e | operand e => e.Retells ws
  | suffixes before after | chainRest _ _ before after =>
    ∀ front, before.Retells front → after.Retells (front ++ ws)
  | arguments es | listRest es => Expr.RetellsAll es ws
  | elements es => ∃ front, ws = front ++ words [symbol "]"] ∧ Expr.RetellsAll es front

namespace Expr

/-! ## Derivations -/

/-- The terminals of a phrase have the words of its printed form. -/
theorem retold_of_derives {d : Nat} {p : Phrase} {ts rest : List Terminal}
    (h : Derives (some "") d p ts rest) (hp : p.levels ⊆ BinaryOp.levels)
    (hts : ∀ t ∈ ts, t.Plain) : ∃ ws, words ts = ws ++ words rest ∧ p.Retold ws := by
  induction h with
  | expression head _ ih ih' =>
    obtain ⟨ws, hws, hhead⟩ := ih (List.nil_subset _) hts
    obtain ⟨ws', hws', htail⟩ := ih' (List.nil_subset _)
      fun t ht ↦ hts t (head.rest_suffix.subset ht)
    exact ⟨ws ++ ws', by rw [hws, hws', List.append_assoc], htail ws hhead⟩
  | noSuffix | chainEnd => exact ⟨[], rfl, fun front hfront ↦ (List.append_nil front).symm ▸ hfront⟩
  | call ht head _ ih ih' =>
    have hrest := fun t ht ↦ hts t (List.mem_cons_of_mem _ ht)
    obtain ⟨ws, hws, hhead⟩ := ih (List.nil_subset _) hrest
    obtain ⟨ws', hws', htail⟩ := ih' (List.nil_subset _)
      fun t ht ↦ hrest t (head.rest_suffix.subset ht)
    refine ⟨ws ++ ws', ?_, fun front hfront ↦ ?_⟩
    · rw [words_of_spells ht, words_opening, hws, hws', List.append_assoc]
    · rw [← List.append_assoc]
      exact htail _ (hfront.call hhead)
  | @filter d e e' t name ts rest ht _ _ ih =>
    have hrest := fun t ht ↦ hts t (List.mem_cons_of_mem _ ht)
    obtain ⟨ws, hws, htail⟩ := ih (List.nil_subset _)
      fun t ht ↦ hrest t (List.mem_cons_of_mem _ ht)
    refine ⟨words [symbol "|"] ++ words [name] ++ ws, ?_, fun front hfront ↦ ?_⟩
    · rw [words_of_spells ht, words_cons, words_cons name, hws]
      simp only [List.append_assoc]
    · have hfilter := htail _ (hfront.filter (hrest name List.mem_cons_self).lexes .nil)
      simpa only [List.append_assoc, List.append_nil] using hfilter
  | @filterWith d d' e e' es t name t' ts us rest ht ht' head _ ih ih' =>
    have hrest := fun t ht ↦ hts t (List.mem_cons_of_mem _ ht)
    have hrest' := fun t ht ↦ hrest t (List.mem_cons_of_mem _ (List.mem_cons_of_mem _ ht))
    obtain ⟨ws, hws, hhead⟩ := ih (List.nil_subset _) hrest'
    obtain ⟨ws', hws', htail⟩ := ih' (List.nil_subset _)
      fun t ht ↦ hrest' t (head.rest_suffix.subset ht)
    refine ⟨words [symbol "|"] ++ words [name] ++ ws ++ ws', ?_, fun front hfront ↦ ?_⟩
    · rw [words_of_spells ht, words_cons, words_cons name, words_of_spells ht', words_opening, hws,
        hws']
      simp only [List.append_assoc]
    · have hfilter := htail _ (hfront.filter (hrest name List.mem_cons_self).lexes hhead)
      simpa only [List.append_assoc] using hfilter
  | filterAtEnd hname ht =>
    -- the end of the stream gives the filter a name without words
    cases hname
    exact ⟨_, words_of_spells ht [], fun front hfront ↦ hfront.filter .nil .nil⟩
  | noArguments ht => exact ⟨[], by rw [words_of_spells ht, words_closing]; rfl, .nil⟩
  | someArguments _ head _ ht ih ih' =>
    obtain ⟨ws, hws, hhead⟩ := ih (List.nil_subset _) hts
    obtain ⟨ws', hws', htail⟩ := ih' (List.nil_subset _)
      fun t ht ↦ hts t (head.rest_suffix.subset ht)
    refine ⟨ws ++ ws', ?_, .cons hhead htail⟩
    rw [hws, hws', words_of_spells ht, words_closing, List.append_assoc]
  | listEnd => exact ⟨[], rfl, .nil⟩
  | listMore ht head _ ih ih' =>
    have hrest := fun t ht ↦ hts t (List.mem_cons_of_mem _ ht)
    obtain ⟨ws, hws, hhead⟩ := ih (List.nil_subset _) hrest
    obtain ⟨ws', hws', htail⟩ := ih' (List.nil_subset _)
      fun t ht ↦ hrest t (head.rest_suffix.subset ht)
    refine ⟨ws ++ ws', ?_, .cons hhead htail⟩
    rw [words_of_spells ht, words_comma, hws, hws', List.append_assoc]
  | noElements ht => exact ⟨_, (words_of_spells ht _).trans (words_cons _ _), [], rfl, .nil⟩
  | element _ head _ _ ih ih' =>
    obtain ⟨ws, hws, hhead⟩ := ih (List.nil_subset _) hts
    obtain ⟨_, hws', front, rfl, htail⟩ :=
      ih' (List.nil_subset _) fun t ht ↦ hts t (head.rest_suffix.subset ht)
    refine ⟨_, ?_, ws ++ front, rfl, .cons hhead htail⟩
    rw [hws, hws', List.append_assoc, List.append_assoc, List.append_assoc]
  | elementComma _ head ht _ ih ih' =>
    obtain ⟨ws, hws, hhead⟩ := ih (List.nil_subset _) hts
    obtain ⟨_, hws', front, rfl, htail⟩ :=
      ih' (List.nil_subset _) fun t ht ↦ hts t (head.rest_suffix.subset (List.mem_cons_of_mem _ ht))
    refine ⟨_, ?_, ws ++ front, rfl, .cons hhead htail⟩
    rw [hws, words_of_spells ht, words_comma, hws', List.append_assoc, List.append_assoc,
      List.append_assoc]
  | noChoice _ _ ih => exact ih (List.Subset.refl _) hts
  | choice head ht middle ht' _ ih ih' ih'' =>
    have hrest := fun t ht ↦ hts t (head.rest_suffix.subset (List.mem_cons_of_mem _ ht))
    have hrest' := fun t ht ↦ hrest t (middle.rest_suffix.subset (List.mem_cons_of_mem _ ht))
    obtain ⟨ws, hws, hhead⟩ := ih (List.Subset.refl _) hts
    obtain ⟨ws', hws', hmiddle⟩ := ih' (List.nil_subset _) hrest
    obtain ⟨ws'', hws'', htail⟩ := ih'' (List.nil_subset _) hrest'
    refine ⟨_, ?_, hhead.ternary hmiddle htail⟩
    rw [hws, words_of_spells ht, words_cons (symbol "?"), hws', words_of_spells ht',
      words_cons (symbol ":"), hws'']
    simp only [List.append_assoc]
  | single _ ih => exact ih (List.nil_subset _) hts
  | chain head _ ih ih' =>
    obtain ⟨ws, hws, hhead⟩ := ih (List.Subset.trans (List.subset_cons_self _ _) hp) hts
    obtain ⟨ws', hws', htail⟩ := ih' hp fun t ht ↦ hts t (head.rest_suffix.subset ht)
    exact ⟨ws ++ ws', by rw [hws, hws', List.append_assoc], htail ws hhead⟩
  | @chainMore d d' operators tighter op left right e t ts us rest hop head _ ih ih' =>
    have hrest := fun t ht ↦ hts t (List.mem_cons_of_mem _ ht)
    obtain ⟨ws, hws, hhead⟩ := ih (List.Subset.trans (List.subset_cons_self _ _) hp) hrest
    obtain ⟨ws', hws', htail⟩ := ih' hp fun t ht ↦ hrest t (head.rest_suffix.subset ht)
    refine ⟨words [symbol op.spelling] ++ ws ++ ws', ?_, fun front hfront ↦ ?_⟩
    · rw [words_of_operator? hop (hp List.mem_cons_self), words_cons, hws, hws']
      simp only [List.append_assoc]
    · have hbinary := htail _ (hfront.binary op hhead)
      simpa only [List.append_assoc] using hbinary
  | parentheses ht _ ht' ih =>
    obtain ⟨ws, hws, hhead⟩ := ih (List.nil_subset _) fun t ht ↦ hts t (List.mem_cons_of_mem _ ht)
    refine ⟨ws, ?_, hhead⟩
    rw [words_of_spells ht, words_opening, hws, words_of_spells ht', words_closing]
  | array ht _ ih =>
    obtain ⟨_, hws, front, rfl, hhead⟩ :=
      ih (List.nil_subset _) fun t ht ↦ hts t (List.mem_cons_of_mem _ ht)
    refine ⟨_, ?_, .array hhead⟩
    rw [words_of_spells ht, words_cons, hws]
    simp only [List.append_assoc]
  | @unary d op a t ts rest hkind hop _ ih =>
    obtain ⟨ws, hws, hhead⟩ := ih (List.nil_subset _) fun t ht ↦ hts t (List.mem_cons_of_mem _ ht)
    obtain rfl : t = symbol op.spelling := by
      rw [symbol, UnaryOp.spelling_of_ofSpelling? hop, ← hkind]
    refine ⟨_, ?_, hhead.unary op⟩
    rw [words_cons, hws, List.append_assoc]
  | number hkind => exact absurd (hts _ List.mem_cons_self).kind (by simp [hkind])
  | string hkind => exact absurd (hts _ List.mem_cons_self).kind (by simp [hkind])
  | @word t rest hkind _ _ =>
    have hlexical := (hts t List.mem_cons_self).lexical
    rw [Terminal.Lexical, hkind] at hlexical
    exact ⟨_, words_cons t rest, .word hlexical⟩

/-! ## Texts -/

/-- A text of names and symbols that is read as an expression has the words of the printed form of
the expression, in the same order. -/
theorem words_tokens_text {s : String} {e : Expr} {ts : List Token} (h : ofString s = .ok e)
    (hts : (Source.ofString s).tokens = .ok ts)
    (hkinds : ∀ t ∈ ts, t.kind ∈ [TokenKind.identifier, .symbol, .eof]) :
    ∃ us, (Source.ofString e.text).tokens = .ok us ∧
      words (us.map Token.terminal) = words (ts.map Token.terminal) := by
  obtain ⟨us, p, rfl, hlexes⟩ := lexes_of_tokens hts
  obtain ⟨us', d, hlexes', -, hder⟩ := derives_of_ofString h
  obtain rfl := hlexes.unique hlexes'
  have hplain : ∀ t ∈ us.map Token.terminal, t.Plain := by
    refine List.forall_mem_map.2 fun t ht ↦ ⟨hlexes.lexical _ (List.mem_map_of_mem ht), ?_⟩
    have hkind := hkinds t (List.mem_append_left _ ht)
    have heof : t.kind ≠ .eof := by simpa [Token.isEof] using isEof_of_lexes hlexes t ht
    simpa [heof, Token.terminal] using hkind
  obtain ⟨ws, hws, hretells⟩ := retold_of_derives hder (List.nil_subset _) hplain
  obtain ⟨vs, hvs, rfl⟩ := Retells.lexes hretells
  have htext : Lexes e.text.toList vs := by
    rw [text, String.toList_ofList]
    exact hvs
  obtain ⟨us', q, htokens, rfl⟩ := tokens_of_lexes htext
  refine ⟨_, htokens, ?_⟩
  -- both texts end with an end token, which is the same word
  rw [List.map_append, List.map_append, words_append, words_append, hws, words_nil,
    List.append_nil]
  rfl

theorem words_tokens_text_of_array :
    let s := "[a or b c]|("
    let ts : List Token := [⟨.symbol, "[", ⟨1, 1, 0⟩⟩, ⟨.identifier, "a", ⟨1, 2, 1⟩⟩,
      ⟨.identifier, "or", ⟨1, 4, 3⟩⟩, ⟨.identifier, "b", ⟨1, 7, 6⟩⟩, ⟨.identifier, "c", ⟨1, 9, 8⟩⟩,
      ⟨.symbol, "]", ⟨1, 10, 9⟩⟩, ⟨.symbol, "|", ⟨1, 11, 10⟩⟩, ⟨.symbol, "(", ⟨1, 12, 11⟩⟩,
      ⟨.eof, "", ⟨1, 13, 12⟩⟩]
    let e := filter "(" [array [binary .or (name "a") (name "b"), name "c"]]
    ofString s = .ok e ∧ (Source.ofString s).tokens = .ok ts ∧
      (∀ t ∈ ts, t.kind ∈ [TokenKind.identifier, .symbol, .eof]) ∧
      ∃ us, (Source.ofString e.text).tokens = .ok us ∧
        words (us.map Token.terminal) = words (ts.map Token.terminal) := by
  intro s ts e
  have h : ofString s = .ok e := by cbv
  have hts : (Source.ofString s).tokens = .ok ts := by decide +kernel
  have hkinds : ∀ t ∈ ts, t.kind ∈ [TokenKind.identifier, .symbol, .eof] := by decide
  exact ⟨h, hts, hkinds, words_tokens_text h hts hkinds⟩

end Expr

end TemplateExpr
