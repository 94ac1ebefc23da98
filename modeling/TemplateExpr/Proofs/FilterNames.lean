import TemplateExpr.Proofs.Context

/-!
# The names of filters

Where the filters of a tree have their names from. A filter is named by the terminal behind its
pipe, whatever the kind of the terminal, and no terminal names two filters. Only the last name in a
tree can come from elsewhere: where the end of the stream has named a filter, nothing comes after
its pipe (`Derives.names_adds`). So what is derived whatever the name at the end of the stream is
derived without one (`Derives.of_forall_atEnd`).

## Names in order

The names of a tree are listed in the order in which they are written, so that they can be compared
with the terminals behind pipes as a sublist. Not every such terminal is a name, because a pipe may
be the name of a filter itself, and then what is behind it is not.

## Names that a phrase adds

A chain or a row of suffixes goes on from a tree that has been read before. Its derivation accounts
for the names that it adds to those, and not for all names of the tree (`Phrase.Adds`). With that,
the names of two parts are always one list after the other, and the cases of a derivation are those
of a list (`NamedBy.cons`, `NamedBy.append`).
-/

open scoped List

namespace TemplateExpr

/-! ## Names in a tree -/

namespace Expr

mutual

/-- The names of the filters in a tree, in the order in which they are written. What is piped into a
filter stands before its name, and the arguments of the filter stand after it. -/
def filterNames : Expr → List String
  | literal _ | name _ => []
  | unary _ a => filterNames a
  | binary _ l r => filterNames l ++ filterNames r
  | ternary c a b => filterNames c ++ (filterNames a ++ filterNames b)
  | array es | comma es => filterNamesList es
  | call f es => filterNames f ++ filterNamesList es
  | filter n [] => [n]
  | filter n (e :: es) => filterNames e ++ n :: filterNamesList es

def filterNamesList : List Expr → List String
  | [] => []
  | e :: es => filterNames e ++ filterNamesList es

end

theorem filterNames_callee (e : Expr) : (Grammar.callee e).filterNames = e.filterNames := by
  cases e <;> rfl

theorem filterNames_word (s : String) : (Grammar.word s).filterNames = [] := by
  rw [Grammar.word]
  split <;> rfl

end Expr

/-! ## What stands behind a pipe -/

/-- The elements of a list that stand right behind one with a property. -/
def followers {α : Type} (p : α → Bool) : List α → List α
  | [] => []
  | [_] => []
  | t :: u :: ts => if p t then u :: followers p (u :: ts) else followers p (u :: ts)

section Followers

variable {α β : Type}

theorem followers_map (f : α → β) (p : β → Bool) (ts : List α) :
    followers p (ts.map f) = (followers (fun t ↦ p (f t)) ts).map f := by
  induction ts using followers.induct (fun t ↦ p (f t)) with
  | case1 | case2 => rfl
  | case3 t u ts ht ih =>
    rw [List.map_cons, List.map_cons, followers, if_pos ht, followers, if_pos ht, List.map_cons,
      ← ih, List.map_cons]
  | case4 t u ts ht ih =>
    rw [List.map_cons, List.map_cons, followers, if_neg ht, followers, if_neg ht, ← ih,
      List.map_cons]

variable (p : α → Bool)

theorem followers_sublist_cons (t : α) (ts : List α) : followers p ts <+ followers p (t :: ts) := by
  cases ts with
  | nil => exact List.nil_sublist _
  | cons u ts =>
    rw [followers.eq_3]
    split
    · exact List.sublist_cons_self _ _
    · exact List.Sublist.refl _

theorem followers_append_of_forall {ts : List α} (h : ∀ t ∈ ts, p t = false) (us : List α) :
    followers p (ts ++ us) = followers p us := by
  induction ts with
  | nil => rfl
  | cons t ts ih =>
    obtain ⟨ht, hts⟩ := List.forall_mem_cons.1 h
    rw [← ih hts, List.cons_append]
    cases ts ++ us with
    | nil => rfl
    | cons u vs => rw [followers, if_neg (ne_true_of_eq_false ht)]

theorem followers_append_sublist (ts us : List α) :
    followers p ts ++ followers p us <+ followers p (ts ++ us) := by
  induction ts using followers.induct p with
  | case1 => exact List.Sublist.refl _
  | case2 t => exact followers_sublist_cons p t us
  | case3 t u ts ht ih =>
    rw [followers, if_pos ht, List.cons_append, List.cons_append, List.cons_append, followers,
      if_pos ht]
    exact ih.cons_cons u
  | case4 t u ts ht ih =>
    rw [followers, if_neg ht, List.cons_append, List.cons_append, followers, if_neg ht]
    exact ih

end Followers

namespace Terminal

def behindPipes (ts : List Terminal) : List Terminal := followers (·.spells "|") ts

end Terminal

open Terminal

/-- The names of the filters that a phrase adds to those it begins with. -/
def Phrase.Adds (names : List String) : Phrase → Prop
  | expression e | ternary e | chain _ e | operand e => e.filterNames = names
  | suffixes before after | chainRest _ _ before after =>
    after.filterNames = before.filterNames ++ names
  | arguments es | listRest es | elements es => Expr.filterNamesList es = names

theorem Phrase.Adds.unique {p : Phrase} {names names' : List String} (h : p.Adds names)
    (h' : p.Adds names') : names = names' := by
  cases p with
  | suffixes | chainRest => exact List.append_cancel_left (Eq.trans (Eq.symm h) h')
  | _ => exact Eq.trans (Eq.symm h) h'

/-! ## Names from terminals -/

/-- Some names come from terminals behind pipes, one from each and in the order in which they stand,
or all but the last one do: that is the name at the end of the stream, and its pipe is the last
terminal. The truth value tells which of the two it is. -/
inductive NamedBy (atEnd : Option String) :
    Bool → List Terminal → List Terminal → List String → Prop where
  /-- All names are there. -/
  | terminals {ws rest named : List Terminal} (h : named <+ behindPipes ws) :
      NamedBy atEnd false ws rest (named.map text)
  /-- The last one is missing. -/
  | stop {ws named : List Terminal} {s : String} (h : named <+ behindPipes ws)
      (hpipe : ¬ EndsWithoutPipe ws) (hs : s ∈ atEnd) :
      NamedBy atEnd true ws [] (named.map text ++ [s])

namespace NamedBy

variable {atEnd : Option String} {b b' : Bool} {ws ws' rest : List Terminal}
  {names names' : List String} {t : Terminal}

theorem none (ws rest : List Terminal) : NamedBy atEnd false ws rest [] :=
  .terminals (List.nil_sublist _)

theorem name (ht : t.spells "|" = true) (name : Terminal) :
    NamedBy atEnd false [t, name] rest [name.text] := by
  have hname : [name] <+ behindPipes [t, name] := by
    rw [behindPipes, followers, if_pos ht]
    exact List.Sublist.refl _
  exact .terminals hname

theorem cons (t : Terminal) (h : NamedBy atEnd b ws rest names) :
    NamedBy atEnd b (t :: ws) rest names := by
  cases h with
  | terminals h => exact .terminals (h.trans (followers_sublist_cons _ t ws))
  | stop h hpipe hs =>
    refine .stop (h.trans (followers_sublist_cons _ t ws)) (fun hws ↦ hpipe ?_) hs
    exact hws.of_suffix (List.suffix_cons _ _)

/-- Names of two parts. If the end of the stream has named a filter of the first part, nothing is
left for the second one. -/
theorem append {us : List Terminal} (h : NamedBy atEnd b ws us names)
    (h' : NamedBy atEnd b' ws' rest names') (hus : us = ws' ++ rest) :
    NamedBy atEnd (b || b') (ws ++ ws') rest (names ++ names') := by
  have hsub : ∀ {named named'}, named <+ behindPipes ws → named' <+ behindPipes ws' →
      named ++ named' <+ behindPipes (ws ++ ws') :=
    fun h h' ↦ (h.append h').trans (followers_append_sublist _ ws ws')
  cases h with
  | terminals h =>
    cases h' with
    | terminals h' =>
      rw [← List.map_append]
      exact .terminals (hsub h h')
    | stop h' hpipe hs =>
      rw [← List.append_assoc, ← List.map_append]
      refine .stop (hsub h h') (fun hws ↦ hpipe ?_) hs
      exact hws.of_suffix (List.suffix_append _ _)
  | stop h hpipe hs =>
    obtain ⟨rfl, rfl⟩ := List.append_eq_nil_iff.1 hus.symm
    cases h' with
    | terminals h' =>
      obtain rfl := List.sublist_nil.1 h'
      rw [List.append_nil, List.map_nil, List.append_nil]
      exact .stop h hpipe hs
    | stop _ hpipe' => exact absurd nofun hpipe'

theorem concat (h : NamedBy atEnd b ws (t :: rest) names) :
    NamedBy atEnd b (ws ++ [t]) rest names := by
  cases h with
  | terminals h =>
    refine .terminals (h.trans ?_)
    exact (List.sublist_append_left _ _).trans (followers_append_sublist _ ws [t])

/-- Terminals before the others that are no pipes have no part in their names. -/
theorem of_front {front : List Terminal} (hfront : ∀ t ∈ front, t.spells "|" = false)
    (h : NamedBy atEnd b (front ++ ws) rest names) : NamedBy atEnd b ws rest names := by
  have hbehind : behindPipes (front ++ ws) = behindPipes ws :=
    followers_append_of_forall _ hfront ws
  cases h with
  | terminals h => exact .terminals (hbehind ▸ h)
  | stop h hpipe hs =>
    refine .stop (hbehind ▸ h) (fun hws ↦ hpipe ?_) hs
    by_cases hnil : ws = []
    · rw [hnil, List.append_nil]
      exact fun t ht ↦ hfront t (List.mem_of_mem_getLast? ht)
    · exact hws.append front hnil

end NamedBy

/-! ## Names of phrases -/

/-- Some terminals are used up, and names that have a property come from them. If none of the names
is that at the end of the stream, there is something that holds without it. -/
def Names (atEnd : Option String) (adds : List String → Prop) (without : Prop)
    (ts rest : List Terminal) : Prop :=
  ∃ ws names b, ts = ws ++ rest ∧ adds names ∧ NamedBy atEnd b ws rest names ∧
    (b = false → without)

namespace Names

variable {atEnd : Option String} {adds adds' adds'' : List String → Prop}
  {without without' without'' : Prop} {ts us rest : List Terminal}

theorem refl (h : adds []) (hwithout : without) : Names atEnd adds without rest rest :=
  ⟨[], [], false, rfl, h, .none _ _, fun _ ↦ hwithout⟩

theorem imp (h : Names atEnd adds without ts rest) (hwithout : without → without') :
    Names atEnd adds without' ts rest := by
  obtain ⟨ws, names, b, rfl, hadds, hnamed, hnone⟩ := h
  exact ⟨ws, names, b, rfl, hadds, hnamed, fun hb ↦ hwithout (hnone hb)⟩

theorem cons (t : Terminal) (h : Names atEnd adds without ts rest) :
    Names atEnd adds without (t :: ts) rest := by
  obtain ⟨ws, names, b, rfl, hadds, hnamed, hnone⟩ := h
  exact ⟨t :: ws, names, b, rfl, hadds, hnamed.cons t, hnone⟩

theorem concat {t : Terminal} (h : Names atEnd adds without ts (t :: rest)) :
    Names atEnd adds without ts rest := by
  obtain ⟨ws, names, b, rfl, hadds, hnamed, hnone⟩ := h
  exact ⟨ws ++ [t], names, b, List.append_cons .., hadds, hnamed.concat, hnone⟩

theorem bind (h : Names atEnd adds without ts us) (h' : Names atEnd adds' without' us rest)
    (hadds : ∀ {names names'}, adds names → adds' names' → adds'' (names ++ names'))
    (hwithout : without → without' → without'') : Names atEnd adds'' without'' ts rest := by
  obtain ⟨ws, names, b, rfl, hnames, hnamed, hnone⟩ := h
  obtain ⟨ws', names', b', rfl, hnames', hnamed', hnone'⟩ := h'
  refine ⟨ws ++ ws', names ++ names', b || b', (List.append_assoc ..).symm, hadds hnames hnames',
    hnamed.append hnamed' rfl, fun hb ↦ ?_⟩
  obtain ⟨hb, hb'⟩ := Bool.or_eq_false_iff.1 hb
  exact hwithout (hnone hb) (hnone' hb')

theorem filter {t : Terminal} (ht : t.spells "|" = true) (name : Terminal)
    (h : Names atEnd adds without ts rest)
    (hadds : ∀ {names}, adds names → adds' (name.text :: names)) :
    Names atEnd adds' without (t :: name :: ts) rest := by
  obtain ⟨ws, names, b, rfl, hnames, hnamed, hnone⟩ := h
  exact ⟨t :: name :: ws, name.text :: names, b, rfl, hadds hnames,
    (NamedBy.name ht name).append hnamed rfl, hnone⟩

end Names

/-! ## The names in a derivation -/

namespace Derives

variable {atEnd : Option String} {d : Nat} {p : Phrase} {ts rest : List Terminal}

/-- The names of the filters in a phrase, and what there is of it without a name at the end of the
stream. -/
theorem names_adds (h : Derives atEnd d p ts rest) :
    Names atEnd p.Adds (Derives none d p ts rest) ts rest := by
  induction h with
  | expression _ _ ih ih' => exact ih.bind ih' (fun h h' ↦ h ▸ h') .expression
  | noSuffix hcall hpipe => exact .refl (List.append_nil _).symm (.noSuffix hcall hpipe)
  | @call _ _ _ _ _ t _ _ _ ht _ _ ih ih' =>
    refine (ih.bind ih' (fun h h' ↦ ?_) (.call ht)).cons t
    rw [Phrase.Adds, h', Expr.filterNames, Expr.filterNames_callee, h, List.append_assoc]
  | @filter _ _ _ _ name _ _ ht hnil _ ih =>
    refine (ih.imp (.filter ht hnil)).filter ht name fun h ↦ ?_
    rw [Phrase.Adds, h, Expr.filterNames, Expr.filterNamesList, List.append_assoc]
    rfl
  | @filterWith d d' e e' _ t name t' ts _ rest ht ht' _ _ ih ih' =>
    have hargs : Names atEnd (e'.filterNames = e.filterNames ++ name.text :: ·)
        (Derives none (max d d') (.suffixes e e') (t :: name :: t' :: ts) rest) ts rest := by
      refine ih.bind ih' (fun h h' ↦ ?_) (.filterWith ht ht')
      rw [h', Expr.filterNames, h, List.append_assoc]
      rfl
    exact (hargs.cons t').filter ht name id
  | filterAtEnd hname ht =>
    refine ⟨[_], _, true, rfl, rfl, .stop (List.nil_sublist _) (fun hpipe ↦ ?_) hname, nofun⟩
    exact absurd (hpipe _ rfl) (by simp [ht])
  | noArguments ht => exact (Names.refl rfl (.noArguments ht)).cons _
  | someArguments hsome _ _ ht ih ih' =>
    refine ih.bind ih'.concat (fun h h' ↦ ?_) (.someArguments hsome · · ht)
    rw [Phrase.Adds, Expr.filterNamesList, h, h']
  | listEnd hend => exact .refl rfl (.listEnd hend)
  | listMore ht _ _ ih ih' =>
    refine (ih.bind ih' (fun h h' ↦ ?_) (.listMore ht)).cons _
    rw [Phrase.Adds, Expr.filterNamesList, h, h']
  | noElements ht => exact (Names.refl rfl (.noElements ht)).cons _
  | element hsome _ hnil _ ih ih' =>
    refine ih.bind ih' (fun h h' ↦ ?_) (.element hsome · hnil)
    rw [Phrase.Adds, Expr.filterNamesList, h, h']
  | elementComma hsome _ ht _ ih ih' =>
    refine ih.bind (ih'.cons _) (fun h h' ↦ ?_) (.elementComma hsome · ht)
    rw [Phrase.Adds, Expr.filterNamesList, h, h']
  | noChoice _ hend ih => exact ih.imp (.noChoice · hend)
  | @choice _ _ _ _ a b t t' _ us _ rest _ ht _ ht' _ ih ih' ih'' =>
    have hbranches : Names atEnd (a.filterNames ++ b.filterNames = ·) (_ ∧ _) us rest :=
      ih'.bind (ih''.cons t') (fun h h' ↦ h ▸ h' ▸ rfl) And.intro
    refine ih.bind (hbranches.cons t) (fun h h' ↦ ?_) fun h h' ↦ .choice h ht h'.1 ht' h'.2
    rw [Phrase.Adds, Expr.filterNames, h, h']
  | single _ ih => exact ih.imp .single
  | chain _ _ ih ih' => exact ih.bind ih' (fun h h' ↦ h ▸ h') .chain
  | chainEnd hend => exact .refl (List.append_nil _).symm (.chainEnd hend)
  | chainMore hop _ _ ih ih' =>
    refine (ih.bind ih' (fun h h' ↦ ?_) (.chainMore hop)).cons _
    rw [Phrase.Adds, h', Expr.filterNames, h, List.append_assoc]
  | parentheses ht _ ht' ih => exact (ih.concat.imp (.parentheses ht · ht')).cons _
  | array ht _ ih => exact (ih.imp (.array ht)).cons _
  | unary hkind hop _ ih => exact (ih.imp (.unary hkind hop)).cons _
  | number hkind hv => exact (Names.refl rfl (.number hkind hv)).cons _
  | string hkind => exact (Names.refl rfl (.string hkind)).cons _
  | word hkind hparen hbracket =>
    exact (Names.refl (Expr.filterNames_word _) (.word hkind hparen hbracket)).cons _

theorem none_or {s : String} (h : Derives (some s) d p ts rest) :
    Derives none d p ts rest ∨ ∃ names, p.Adds (names ++ [s]) := by
  obtain ⟨ws, names, b, rfl, hadds, hnamed, hnone⟩ := h.names_adds
  cases hnamed with
  | terminals => exact .inl (hnone rfl)
  | stop _ _ hmem =>
    obtain rfl := Option.some.inj hmem
    exact .inr ⟨_, hadds⟩

/-- What is derived whatever the name at the end of the stream is derived without one, because not
more than one name is the last. -/
theorem of_forall_atEnd {n : Nat} (h : ∀ s, ∃ d ≤ n, Derives (some s) d p ts rest) :
    ∃ d ≤ n, Derives none d p ts rest := by
  obtain ⟨d, hd, hder⟩ := h ""
  obtain ⟨d', hd', hder'⟩ := h "a"
  rcases hder.none_or with hnone | ⟨names, hadds⟩
  · exact ⟨d, hd, hnone⟩
  rcases hder'.none_or with hnone | ⟨names', hadds'⟩
  · exact ⟨d', hd', hnone⟩
  · have hlast := (List.append_inj' (hadds.unique hadds') rfl).2
    simp at hlast

end Derives

end TemplateExpr
