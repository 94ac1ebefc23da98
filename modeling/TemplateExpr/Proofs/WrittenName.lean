import TemplateExpr.Proofs.Building

/-!
# A name written out

A filter without a name at the end of the stream has its name from there, and it comes back when the
name is written out as a string (`Derives.extended_of_some`). This is the converse: where a string
after a last pipe belongs to a phrase, it is the name of a filter, so the phrase is there without
the string if the end of the stream gives the name (`Derives.of_pipe_iff`).

## The string as an operand

The string could be an operand as well, and then it would be missed. An operand stands behind a pipe
only if the pipe is the name of a filter and the two are elements of an array, and the array has to
be closed. So the string cannot be the last terminal of what is derived.

## Where the string is used up

A derivation is taken apart into phrases, and the string is used up in one of them: in the first one
if nothing is left after it, and otherwise in what comes next. What is shown of a phrase is
therefore a condition on it, that it uses up terminals which end with the pipe and the string
(`Derives.Shortens`), and it is kept when phrases are put together.
-/

namespace TemplateExpr

open Terminal

namespace Derives

variable {atEnd : Option String} {s : String} {d d' : Nat} {p q : Phrase}
  {ts us vs rest : List Terminal} {t : Terminal}

/-! ## The name as a string -/

theorem spells_nameAtEnd (s lexeme : String) : (nameAtEnd s).spells lexeme = false := rfl

theorem begins_of_append {lexeme : String} (h : begins (ts ++ us) lexeme = false) :
    begins ts lexeme = false := by
  cases ts with
  | nil => rfl
  | cons t ts => exact h

/-- An optional phrase does not begin with a string. -/
theorem ne_nil_of_nameAtEnd (h : Derives atEnd d p [nameAtEnd s] rest) (hp : p.least = 0) :
    rest ≠ [] := by
  rintro rfl
  cases h with
  | call ht | filterAtEnd _ ht | listMore ht =>
    cases (spells_nameAtEnd s _).symm.trans ht
  | chainMore hop => cases (operator?_nameAtEnd s).symm.trans hop
  | _ => cases hp

/-- The elements of an array end with a bracket. -/
theorem closing_bracket {es : List Expr} (h : Derives atEnd d (.elements es) ts rest) :
    ∃ t, t.spells "]" = true ∧ t :: rest <:+ ts := by
  induction es generalizing d ts with
  | nil =>
    cases h with
    | noElements ht => exact ⟨_, ht, List.suffix_refl _⟩
  | cons e es ih =>
    cases h with
    | element _ head _ tail =>
      obtain ⟨t, ht, hsuffix⟩ := ih tail
      exact ⟨t, ht, hsuffix.trans head.rest_suffix⟩
    | elementComma _ head _ tail =>
      obtain ⟨t, ht, hsuffix⟩ := ih tail
      exact ⟨t, ht, hsuffix.trans ((List.suffix_cons _ _).trans head.rest_suffix)⟩

theorem of_append_nameAtEnd
    (h : Derives none d p (ts ++ [nameAtEnd s]) (rest ++ [nameAtEnd s]))
    (hp : p.levels ⊆ BinaryOp.levels) : Derives none d p ts rest := by
  obtain ⟨ws, hws, hleaves⟩ := h.exists_eq_append hp
  rw [← List.append_assoc] at hws
  rw [List.append_cancel_right hws]
  refine hleaves rest ?_
  cases rest with
  | nil => exact .inr ⟨closes_nil, fun _ ↦ rfl⟩
  | cons t rest => exact .inl ⟨List.cons_ne_nil _ _, rfl⟩

/-! ## Terminals that are used up -/

/-- If some terminals are used up and they are others that end with a pipe and a string after them,
something is known of the others. -/
def Shortens (s : String) (Q : List Terminal → Prop) (us rest : List Terminal) : Prop :=
  ∀ ts, us = ts ++ [nameAtEnd s] → ¬ EndsWithoutPipe ts → rest = [] → Q ts

namespace Shortens

variable {Q Q' : List Terminal → Prop}

theorem mono (h : Shortens s Q us rest) (hQ : ∀ ts, us = ts ++ [nameAtEnd s] → Q ts → Q' ts) :
    Shortens s Q' us rest :=
  fun ts hus hpipe hrest ↦ hQ ts hus (h ts hus hpipe hrest)

theorem refl (rest : List Terminal) : Shortens s Q rest rest := by
  rintro ts hus - rfl
  cases List.append_eq_nil_iff.1 hus.symm with
  | intro _ hnil => cases hnil

theorem singleton (t : Terminal) (rest : List Terminal) : Shortens s Q (t :: rest) rest := by
  rintro ts hus hpipe rfl
  cases ts with
  | nil => exact absurd nofun hpipe
  | cons t ts => simp at hus

theorem of_suffix {lexeme : String} (ht : t.spells lexeme = true) (h : t :: rest <:+ us) :
    Shortens s Q us rest := by
  rintro ts rfl - rfl
  obtain ⟨vs, hvs⟩ := h
  obtain ⟨-, ht'⟩ := List.append_inj' hvs rfl
  rw [List.singleton_inj.1 ht', spells_nameAtEnd] at ht
  cases ht

/-- A terminal before the others. If the string comes right after it, it has to be no pipe. -/
theorem cons (ht : rest = [] → us = [nameAtEnd s] → t.spells "|" = false)
    (h : Shortens s (fun ts ↦ Q (t :: ts)) us rest) : Shortens s Q (t :: us) rest := by
  intro ts hus hpipe hrest
  cases ts with
  | nil => exact absurd nofun hpipe
  | cons t ts =>
    obtain ⟨rfl, rfl⟩ := List.cons.inj hus
    refine h ts rfl (fun hts ↦ hpipe ?_) hrest
    cases ts with
    | nil =>
      intro u hu
      obtain rfl := Option.some.inj hu
      exact ht hrest rfl
    | cons u ts => exact hts.append [t] (List.cons_ne_nil _ _)

/-! ## Phrases in a row -/

theorem bind (head : Derives none d q us vs) (hq : q.levels ⊆ BinaryOp.levels)
    (hvs : rest = [] → vs ≠ [nameAtEnd s])
    (hnil : vs = [] → rest = [] → ∀ ts, Derives (some s) d q ts [] → Q ts)
    (h : Shortens s (fun ts ↦ Derives (some s) d q ts []) us vs)
    (h' : Shortens s (fun ws ↦ ∀ ts, Derives (some s) d q ts ws → Q ts) vs rest) :
    Shortens s Q us rest := by
  rintro ts rfl hpipe rfl
  rcases List.suffix_concat_iff.1 head.rest_suffix with rfl | ⟨ws, rfl, hws⟩
  · exact hnil rfl rfl ts (h ts rfl hpipe rfl)
  · have hne : ws ≠ [] := by
      rintro rfl
      exact hvs rfl rfl
    obtain ⟨vs, rfl⟩ := hws
    refine h' ws rfl (fun hends ↦ hpipe (hends.append vs hne)) rfl _ ?_
    exact (head.of_append_nameAtEnd hq).mono

theorem derives_phrases {r : Phrase} (head : Derives none d q us vs)
    (hq : q.levels ⊆ BinaryOp.levels) (tail : Derives none d' r vs rest) (hr : r.least = 0)
    (h : Shortens s (fun ts ↦ Derives (some s) d q ts []) us vs)
    (h' : Shortens s (fun ts ↦ Derives (some s) d' r ts []) vs rest)
    (hQ : ∀ ts ws, Derives (some s) d q ts ws → Derives (some s) d' r ws [] → Q ts) :
    Shortens s Q us rest := by
  refine .bind head hq ?_ ?_ h (h'.mono fun ws _ hws ts hts ↦ hQ ts ws hts hws)
  · rintro rfl rfl
    exact tail.ne_nil_of_nameAtEnd hr rfl
  · rintro rfl rfl ts hts
    exact hQ ts [] hts tail.mono

end Shortens

/-! ## Derivations -/

/-- A string that is used up after a last pipe is the name of a filter, and the end of the stream
can give it. -/
theorem shortens_of_none (s : String) (h : Derives none d p us rest)
    (hp : p.levels ⊆ BinaryOp.levels) :
    Shortens s (fun ts ↦ Derives (some s) d p ts []) us rest := by
  induction h with
  | expression head tail ih ih' =>
    exact .derives_phrases head (List.nil_subset _) tail rfl (ih (List.nil_subset _))
      (ih' (List.nil_subset _)) fun _ _ h h' ↦ .expression h h'
  | noSuffix | listEnd | chainEnd => exact .refl _
  | call ht head tail ih ih' =>
    refine .cons (fun _ _ ↦ spells_eq_false ht (by decide)) ?_
    exact .derives_phrases head (List.nil_subset _) tail rfl (ih (List.nil_subset _))
      (ih' (List.nil_subset _)) fun _ _ h h' ↦ .call ht h h'
  | @filter _ e _ t name ts _ ht hnone tail ih =>
    by_cases hts : ts = []
    · -- the string is the name
      subst hts
      rintro us hus - -
      have hconcat : [t] ++ [name] = us ++ [nameAtEnd s] := hus
      obtain ⟨rfl, hname⟩ := List.append_inj' hconcat rfl
      obtain rfl := List.singleton_inj.1 hname
      cases tail with
      | noSuffix => exact .filterAtEnd rfl ht
    · refine .cons (fun _ hus ↦ absurd (List.cons.inj hus).2 hts) (.cons ?_ ?_)
      · rintro rfl rfl
        exact absurd rfl (tail.ne_nil_of_nameAtEnd rfl)
      · refine (ih (List.nil_subset _)).mono fun us hus h ↦ .filter ht ?_ h
        rw [hus] at hnone
        exact begins_of_append hnone
  | filterWith ht ht' head tail ih ih' =>
    refine .cons (fun _ hus ↦ by simp at hus) (.cons ?_ (.cons ?_ ?_))
    · rintro - hus
      obtain ⟨rfl, -⟩ := List.cons.inj hus
      cases ht'
    · exact fun _ _ ↦ spells_eq_false ht' (by decide)
    · exact .derives_phrases head (List.nil_subset _) tail rfl (ih (List.nil_subset _))
        (ih' (List.nil_subset _)) fun _ _ h h' ↦ .filterWith ht ht' h h'
  | filterAtEnd hname => cases hname
  | noArguments ht | noElements ht => exact .of_suffix ht (List.suffix_refl _)
  | someArguments _ head tail ht => exact .of_suffix ht (tail.rest_suffix.trans head.rest_suffix)
  | listMore ht head tail ih ih' =>
    refine .cons (fun _ _ ↦ spells_eq_false ht (by decide)) ?_
    exact .derives_phrases head (List.nil_subset _) tail rfl (ih (List.nil_subset _))
      (ih' (List.nil_subset _)) fun _ _ h h' ↦ .listMore ht h h'
  | element _ head _ tail =>
    obtain ⟨t, ht, hsuffix⟩ := tail.closing_bracket
    exact .of_suffix ht (hsuffix.trans head.rest_suffix)
  | elementComma _ head _ tail =>
    obtain ⟨t, ht, hsuffix⟩ := tail.closing_bracket
    exact .of_suffix ht (hsuffix.trans ((List.suffix_cons _ _).trans head.rest_suffix))
  | noChoice head _ ih =>
    exact (ih (List.Subset.refl _)).mono fun _ _ h ↦ .noChoice h rfl
  | @choice _ _ _ _ _ _ t t' _ _ _ _ head ht middle ht' _ ih ih' ih'' =>
    refine .bind head (List.Subset.refl _) ?_ nofun (ih (List.Subset.refl _)) (.cons ?_ ?_)
    · rintro - hus
      obtain ⟨rfl, -⟩ := List.cons.inj hus
      cases ht
    · exact fun _ _ ↦ spells_eq_false ht (by decide)
    refine .bind middle (List.nil_subset _) ?_ nofun (ih' (List.nil_subset _)) (.cons ?_ ?_)
    · rintro - hus
      obtain ⟨rfl, -⟩ := List.cons.inj hus
      cases ht'
    · exact fun _ _ ↦ spells_eq_false ht' (by decide)
    exact (ih'' (List.nil_subset _)).mono fun _ _ h'' _ h' _ h ↦ .choice h ht h' ht' h''
  | single head ih => exact (ih (List.nil_subset _)).mono fun _ _ h ↦ .single h
  | chain head tail ih ih' =>
    have htighter := List.Subset.trans (List.subset_cons_self _ _) hp
    exact .derives_phrases head htighter tail rfl (ih htighter) (ih' hp) fun _ _ h h' ↦ .chain h h'
  | chainMore hop head tail ih ih' =>
    have htighter := List.Subset.trans (List.subset_cons_self _ _) hp
    refine .cons (fun _ _ ↦ ?_) ?_
    · have hpipe : ∀ operators ∈ BinaryOp.levels, "|" ∉ operators.map Prod.fst := by decide
      rw [← Bool.not_eq_true]
      intro ht
      cases (operator?_eq_none ht (hpipe _ (hp List.mem_cons_self)) _).symm.trans hop
    · exact .derives_phrases head htighter tail rfl (ih htighter) (ih' hp) fun _ _ h h' ↦
        .chainMore hop h h'
  | parentheses _ head ht' => exact .of_suffix ht' (head.rest_suffix.trans (List.suffix_cons _ _))
  | array _ head =>
    obtain ⟨t, ht, hsuffix⟩ := head.closing_bracket
    exact .of_suffix ht (hsuffix.trans (List.suffix_cons _ _))
  | unary hkind hop head ih =>
    refine .cons (fun _ _ ↦ spells_eq_false_of_text_ne ?_) ?_
    · rintro htext
      rw [htext] at hop
      cases hop
    · exact (ih (List.nil_subset _)).mono fun _ _ h ↦ .unary hkind hop h
  | number | string | word => exact .singleton _ _

/-! ## Names at the end -/

/-- Terminals that end with a pipe are used up with the help of the end of the stream if they are
without it, or if they are with a string after them. -/
theorem of_pipe_iff (hp : p.levels ⊆ BinaryOp.levels) (hpipe : ¬ EndsWithoutPipe ts) :
    Derives (some s) d p ts [] ↔
      Derives none d p (ts ++ [nameAtEnd s]) [] ∨ Derives none d p ts [] := by
  constructor
  · intro h
    rcases h.extended_of_some with h | ⟨-, -, h⟩
    · exact .inr (h.of_append_nameAtEnd hp)
    · exact .inl h
  · rintro (h | h)
    · exact h.shortens_of_none s hp ts rfl hpipe rfl
    · exact h.mono

end Derives

end TemplateExpr
