import TemplateExpr.Proofs.Derivation

/-!
# Derivations in context

What becomes of a derivation when other terminals stand after it. A phrase does not look beyond the
first of the terminals that it leaves, so any others may be in their place that begin in the same
way, or that continue nothing (`Derives.exists_eq_append`).

## What may be left

Whether other terminals may stand after a phrase depends on the phrase in one respect only: a comma
goes on with a list and with nothing else. So there is one notion for all phrases
(`Phrase.MayLeave`), and a phrase passes it on to its parts: where a part ends, either more
terminals of the phrase follow, and they are the same as before, or the phrase ends there as well.

## The end of the stream

The one phrase that is lost when the end of the stream moves away is a filter that takes its name
from there. It needs a pipe as the last terminal (`Derives.of_endsWithoutPipe`), and it comes back
when its name is written out as a string, which is a name for a filter and can be read as nothing
else there (`Derives.exists_eq_append_or`). A string as the last terminal is therefore either left
over, or it is that name, and then nothing at all is left (`Derives.Leftover`).
-/

namespace TemplateExpr

open Terminal

/-! ## Terminals that continue nothing -/

/-- No phrase but a list goes on with the first of these terminals. -/
structure Closes (ts : List Terminal) : Prop where
  /-- No argument list follows. -/
  parenthesis : begins ts "(" = false
  /-- No filter follows. -/
  pipe : begins ts "|" = false
  /-- No choice follows. -/
  question : begins ts "?" = false
  /-- No binary operator follows. -/
  operator : ∀ operators ∈ BinaryOp.levels, operator? operators ts = none

theorem closes_nil : Closes [] where
  parenthesis := rfl
  pipe := rfl
  question := rfl
  operator _ _ := operator?_nil _

namespace Phrase

/-- A phrase that leaves the terminals `rest` may leave the terminals `us` in their place. What
comes next is the same, or else it continues nothing. -/
def MayLeave (p : Phrase) (rest us : List Terminal) : Prop :=
  (rest ≠ [] ∧ us.head? = rest.head?) ∨
    (Closes us ∧ (p.isListRest = true → begins us "," = false))

namespace MayLeave

variable {p q : Phrase} {rest us ts : List Terminal} {t : Terminal} {lexeme : String}

theorem cons (p : Phrase) (t : Terminal) (rest us : List Terminal) :
    p.MayLeave (t :: rest) (t :: us) :=
  .inl ⟨List.cons_ne_nil _ _, rfl⟩

theorem refl (rest : List Terminal) : p.MayLeave rest rest := by
  cases rest with
  | nil => exact .inr ⟨closes_nil, fun _ ↦ rfl⟩
  | cons t rest => exact cons p t rest rest

theorem of_closes (h : Closes us) (hp : p.isListRest = false) : p.MayLeave rest us :=
  .inr ⟨h, fun hp' ↦ absurd hp' (by simp [hp])⟩

theorem mayLeave_append (h : p.MayLeave rest us) (hq : q.isListRest = false) (ts : List Terminal) :
    q.MayLeave (ts ++ rest) (ts ++ us) := by
  cases ts with
  | nil => exact h.imp_right fun hcloses ↦ ⟨hcloses.1, fun hq' ↦ absurd hq' (by simp [hq])⟩
  | cons t ts => exact cons q t _ _

theorem begins (h : p.MayLeave rest us)
    (hcloses : Closes us → Terminal.begins us lexeme = false)
    (hrest : Terminal.begins rest lexeme = false) : Terminal.begins us lexeme = false := by
  rcases h with ⟨-, hhead⟩ | ⟨hus, -⟩
  · rwa [Terminal.begins, hhead]
  · exact hcloses hus

theorem begins_append (h : p.MayLeave rest us)
    (hcloses : Closes us → Terminal.begins us lexeme = false)
    (hts : Terminal.begins (ts ++ rest) lexeme = false) :
    Terminal.begins (ts ++ us) lexeme = false := by
  cases ts with
  | nil => exact h.begins hcloses hts
  | cons t ts => exact hts

theorem operator? (h : p.MayLeave rest us) {operators : List (String × BinaryOp)}
    (hmem : operators ∈ BinaryOp.levels) (hrest : Terminal.operator? operators rest = none) :
    Terminal.operator? operators us = none := by
  rcases h with ⟨-, hhead⟩ | ⟨hus, -⟩
  · simpa only [Terminal.operator?, Terminal.begins, hhead] using hrest
  · exact hus.operator operators hmem

end MayLeave

end Phrase

/-! ## Terminals that end without a pipe -/

/-- The last of some terminals is no pipe. -/
def EndsWithoutPipe (ts : List Terminal) : Prop := ∀ t ∈ ts.getLast?, t.spells "|" = false

namespace EndsWithoutPipe

variable {ts us : List Terminal}

theorem of_suffix (h : EndsWithoutPipe ts) (hus : us <:+ ts) : EndsWithoutPipe us := by
  obtain ⟨vs, rfl⟩ := hus
  intro t ht
  exact h t (by rw [List.getLast?_append, ht]; rfl)

theorem append (ts : List Terminal) (h : EndsWithoutPipe us) (hus : us ≠ []) :
    EndsWithoutPipe (ts ++ us) := by
  intro t ht
  rw [List.getLast?_append_of_ne_nil _ hus] at ht
  exact h t ht

end EndsWithoutPipe

namespace Derives

variable {atEnd : Option String} {d : Nat} {p : Phrase} {ts rest : List Terminal}

/-! ## Terminals after a phrase -/

/-- What is derived without the help of the end of the stream is derived with it. -/
theorem mono (h : Derives none d p ts rest) : Derives atEnd d p ts rest := by
  induction h with
  | expression _ _ ih ih' => exact .expression ih ih'
  | noSuffix hcall hpipe => exact .noSuffix hcall hpipe
  | call ht _ _ ih ih' => exact .call ht ih ih'
  | filter ht hnone _ ih => exact .filter ht hnone ih
  | filterWith ht ht' _ _ ih ih' => exact .filterWith ht ht' ih ih'
  | filterAtEnd hname => cases hname
  | noArguments ht => exact .noArguments ht
  | someArguments hsome _ _ ht ih ih' => exact .someArguments hsome ih ih' ht
  | listEnd hend => exact .listEnd hend
  | listMore ht _ _ ih ih' => exact .listMore ht ih ih'
  | noElements ht => exact .noElements ht
  | element hsome _ hnone _ ih ih' => exact .element hsome ih hnone ih'
  | elementComma hsome _ ht _ ih ih' => exact .elementComma hsome ih ht ih'
  | noChoice _ hend ih => exact .noChoice ih hend
  | choice _ ht _ ht' _ ih ih' ih'' => exact .choice ih ht ih' ht' ih''
  | single _ ih => exact .single ih
  | chain _ _ ih ih' => exact .chain ih ih'
  | chainEnd hend => exact .chainEnd hend
  | chainMore hop _ _ ih ih' => exact .chainMore hop ih ih'
  | parentheses ht _ ht' ih => exact .parentheses ht ih ht'
  | array ht _ ih => exact .array ht ih
  | unary hkind hop _ ih => exact .unary hkind hop ih
  | number hkind hv => exact .number hkind hv
  | string hkind => exact .string hkind
  | word hkind hparen hbracket => exact .word hkind hparen hbracket

/-- From no terminals nothing but an optional phrase is derived, and the end of the stream has no
part in it. -/
theorem of_nil (h : Derives atEnd d p [] rest) : rest = [] ∧ Derives none d p [] [] := by
  have hp : p.least ≠ 1 := fun hp ↦ h.ne_nil_of_least hp rfl
  cases h with
  | noSuffix hcall hpipe => exact ⟨rfl, .noSuffix hcall hpipe⟩
  | listEnd hend => exact ⟨rfl, .listEnd hend⟩
  | chainEnd hend => exact ⟨rfl, .chainEnd hend⟩
  | chain | expression | someArguments | element | elementComma | noChoice | choice | single =>
    exact absurd rfl hp

theorem front_ne_nil {ws : List Terminal} (h : Derives atEnd d p (ws ++ rest) rest)
    (hp : p.least = 1) : ws ≠ [] := by
  rintro rfl
  have hlen := h.length_add_least_le
  simp [hp] at hlen

/-- A phrase does not look beyond the first of the terminals that it leaves, so others may stand in
their place. -/
theorem exists_eq_append (h : Derives none d p ts rest) (hp : p.levels ⊆ BinaryOp.levels) :
    ∃ ws, ts = ws ++ rest ∧ ∀ us, p.MayLeave rest us → Derives none d p (ws ++ us) us := by
  induction h with
  | expression _ _ ih ih' =>
    obtain ⟨ws, rfl, hhead⟩ := ih (List.nil_subset _)
    obtain ⟨ws', rfl, htail⟩ := ih' (List.nil_subset _)
    refine ⟨ws ++ ws', (List.append_assoc ..).symm, fun us hus ↦ ?_⟩
    rw [List.append_assoc]
    exact .expression (hhead _ (hus.mayLeave_append rfl ws')) (htail us hus)
  | noSuffix hcall hpipe =>
    refine ⟨[], rfl, fun us hus ↦ ?_⟩
    exact .noSuffix (hus.begins Closes.parenthesis hcall) (hus.begins Closes.pipe hpipe)
  | @call _ _ _ _ _ t _ _ _ ht _ _ ih ih' =>
    obtain ⟨ws, rfl, hhead⟩ := ih (List.nil_subset _)
    obtain ⟨ws', rfl, htail⟩ := ih' (List.nil_subset _)
    refine ⟨t :: (ws ++ ws'), by rw [List.cons_append, List.append_assoc], fun us hus ↦ ?_⟩
    rw [List.cons_append, List.append_assoc]
    exact .call ht (hhead _ (hus.mayLeave_append rfl ws')) (htail us hus)
  | @filter _ _ _ t name _ _ ht hnone _ ih =>
    obtain ⟨ws, rfl, htail⟩ := ih (List.nil_subset _)
    refine ⟨t :: name :: ws, rfl, fun us hus ↦ ?_⟩
    exact .filter ht (hus.begins_append Closes.parenthesis hnone) (htail us hus)
  | @filterWith _ _ _ _ _ t name t' _ _ _ ht ht' _ _ ih ih' =>
    obtain ⟨ws, rfl, hhead⟩ := ih (List.nil_subset _)
    obtain ⟨ws', rfl, htail⟩ := ih' (List.nil_subset _)
    refine ⟨t :: name :: t' :: (ws ++ ws'), by simp only [List.cons_append, List.append_assoc],
      fun us hus ↦ ?_⟩
    simp only [List.cons_append, List.append_assoc]
    exact .filterWith ht ht' (hhead _ (hus.mayLeave_append rfl ws')) (htail us hus)
  | filterAtEnd hname => cases hname
  | @noArguments t _ ht => exact ⟨[t], rfl, fun us _ ↦ .noArguments ht⟩
  | @someArguments _ _ _ es t _ _ rest hsome h _ ht ih ih' =>
    obtain ⟨ws, rfl, hhead⟩ := ih (List.nil_subset _)
    obtain ⟨ws', rfl, htail⟩ := ih' (List.nil_subset _)
    have hne := h.front_ne_nil rfl
    rw [begins_append_of_ne_nil hne] at hsome
    refine ⟨ws ++ (ws' ++ [t]), by simp, fun us _ ↦ ?_⟩
    have hlist : (Phrase.listRest es).MayLeave (t :: rest) (t :: us) := .cons _ t rest us
    rw [List.append_assoc, List.append_assoc]
    exact .someArguments (by rwa [begins_append_of_ne_nil hne])
      (hhead _ (hlist.mayLeave_append rfl ws'))
      (htail _ hlist) ht
  | listEnd hend =>
    refine ⟨[], rfl, fun us hus ↦ .listEnd ?_⟩
    rcases hus with ⟨-, hhead⟩ | ⟨-, hcomma⟩
    · rwa [List.nil_append, begins, hhead]
    · exact hcomma rfl
  | @listMore _ _ _ _ t _ _ _ ht _ _ ih ih' =>
    obtain ⟨ws, rfl, hhead⟩ := ih (List.nil_subset _)
    obtain ⟨ws', rfl, htail⟩ := ih' (List.nil_subset _)
    refine ⟨t :: (ws ++ ws'), by rw [List.cons_append, List.append_assoc], fun us hus ↦ ?_⟩
    rw [List.cons_append, List.append_assoc]
    exact .listMore ht (hhead _ (hus.mayLeave_append rfl ws')) (htail us hus)
  | @noElements t _ ht => exact ⟨[t], rfl, fun us _ ↦ .noElements ht⟩
  | element hsome h hnone h' ih ih' =>
    obtain ⟨ws, rfl, hhead⟩ := ih (List.nil_subset _)
    obtain ⟨ws', rfl, htail⟩ := ih' (List.nil_subset _)
    have hne := h.front_ne_nil rfl
    have hne' := h'.front_ne_nil rfl
    rw [begins_append_of_ne_nil hne] at hsome
    rw [begins_append_of_ne_nil hne'] at hnone
    refine ⟨ws ++ ws', (List.append_assoc ..).symm, fun us hus ↦ ?_⟩
    rw [List.append_assoc]
    exact .element (by rwa [begins_append_of_ne_nil hne]) (hhead _ (hus.mayLeave_append rfl ws'))
      (by rwa [begins_append_of_ne_nil hne']) (htail us hus)
  | @elementComma _ _ _ _ t _ _ _ hsome h ht _ ih ih' =>
    obtain ⟨ws, rfl, hhead⟩ := ih (List.nil_subset _)
    obtain ⟨ws', rfl, htail⟩ := ih' (List.nil_subset _)
    have hne := h.front_ne_nil rfl
    rw [begins_append_of_ne_nil hne] at hsome
    refine ⟨ws ++ t :: ws', by simp, fun us hus ↦ ?_⟩
    rw [List.append_assoc, List.cons_append]
    exact .elementComma (by rwa [begins_append_of_ne_nil hne]) (hhead _ (.cons _ t _ _)) ht
      (htail us hus)
  | noChoice _ hend ih =>
    obtain ⟨ws, rfl, hhead⟩ := ih (List.Subset.refl _)
    refine ⟨ws, rfl, fun us hus ↦ .noChoice (hhead us (hus.mayLeave_append rfl [])) ?_⟩
    exact hus.begins Closes.question hend
  | @choice _ _ _ _ _ _ t t' _ _ _ _ _ ht _ ht' _ ih ih' ih'' =>
    obtain ⟨ws, rfl, hhead⟩ := ih (List.Subset.refl _)
    obtain ⟨ws', rfl, hmiddle⟩ := ih' (List.nil_subset _)
    obtain ⟨ws'', rfl, htail⟩ := ih'' (List.nil_subset _)
    refine ⟨ws ++ t :: (ws' ++ t' :: ws''), by simp, fun us hus ↦ ?_⟩
    rw [List.append_assoc, List.cons_append, List.append_assoc, List.cons_append]
    exact .choice (hhead _ (.cons _ t _ _)) ht (hmiddle _ (.cons _ t' _ _)) ht'
      (htail us (hus.mayLeave_append rfl []))
  | single _ ih =>
    obtain ⟨ws, rfl, hhead⟩ := ih (List.nil_subset _)
    exact ⟨ws, rfl, fun us hus ↦ .single (hhead us (hus.mayLeave_append rfl []))⟩
  | chain _ _ ih ih' =>
    obtain ⟨ws, rfl, hhead⟩ := ih (List.Subset.trans (List.subset_cons_self _ _) hp)
    obtain ⟨ws', rfl, htail⟩ := ih' hp
    refine ⟨ws ++ ws', (List.append_assoc ..).symm, fun us hus ↦ ?_⟩
    rw [List.append_assoc]
    exact .chain (hhead _ (hus.mayLeave_append rfl ws')) (htail us (hus.mayLeave_append rfl []))
  | chainEnd hend =>
    exact ⟨[], rfl, fun us hus ↦ .chainEnd (hus.operator? (hp List.mem_cons_self) hend)⟩
  | @chainMore _ _ _ _ _ _ _ _ t _ _ _ hop _ _ ih ih' =>
    obtain ⟨ws, rfl, hhead⟩ := ih (List.Subset.trans (List.subset_cons_self _ _) hp)
    obtain ⟨ws', rfl, htail⟩ := ih' hp
    refine ⟨t :: (ws ++ ws'), by rw [List.cons_append, List.append_assoc], fun us hus ↦ ?_⟩
    rw [List.cons_append, List.append_assoc]
    exact .chainMore hop (hhead _ (hus.mayLeave_append rfl ws'))
      (htail us (hus.mayLeave_append rfl []))
  | @parentheses _ _ t t' _ _ ht _ ht' ih =>
    obtain ⟨ws, rfl, hhead⟩ := ih (List.nil_subset _)
    refine ⟨t :: (ws ++ [t']), by simp, fun us _ ↦ ?_⟩
    rw [List.cons_append, List.append_assoc]
    exact .parentheses ht (hhead _ (.cons _ t' _ us)) ht'
  | @array _ _ t _ _ ht _ ih =>
    obtain ⟨ws, rfl, hhead⟩ := ih (List.nil_subset _)
    exact ⟨t :: ws, rfl, fun us hus ↦ .array ht (hhead us (hus.mayLeave_append rfl []))⟩
  | @unary _ _ _ t _ _ hkind hop _ ih =>
    obtain ⟨ws, rfl, hhead⟩ := ih (List.nil_subset _)
    exact ⟨t :: ws, rfl, fun us hus ↦ .unary hkind hop (hhead us (hus.mayLeave_append rfl []))⟩
  | @number _ t _ hkind hv => exact ⟨[t], rfl, fun us _ ↦ .number hkind hv⟩
  | @string t _ hkind => exact ⟨[t], rfl, fun us _ ↦ .string hkind⟩
  | @word t _ hkind hparen hbracket => exact ⟨[t], rfl, fun us _ ↦ .word hkind hparen hbracket⟩

theorem append (h : Derives none d p ts rest) (hp : p.levels ⊆ BinaryOp.levels)
    {us : List Terminal} (hus : p.MayLeave rest (rest ++ us)) :
    Derives none d p (ts ++ us) (rest ++ us) := by
  obtain ⟨ws, rfl, hleaves⟩ := h.exists_eq_append hp
  rw [List.append_assoc]
  exact hleaves _ hus

theorem expression_append {e : Expr} (h : Derives none d (.expression e) ts [])
    {us : List Terminal} (hus : Closes us) : Derives none d (.expression e) (ts ++ us) us :=
  h.append (List.nil_subset _) (.of_closes hus rfl)

/-! ## The end of the stream -/

def nameAtEnd (s : String) : Terminal := ⟨.string, s⟩

theorem begins_append_nameAtEnd {lexeme : String} (h : begins ts lexeme = false) (s : String) :
    begins (ts ++ [nameAtEnd s]) lexeme = false :=
  begins_append h fun _ ↦ rfl

theorem operator?_nameAtEnd (s : String) {operators : List (String × BinaryOp)} :
    operator? operators [nameAtEnd s] = none := by
  simp [operator?, nameAtEnd, spells]

/-- What a phrase that leaves `rest` leaves with a string after all the terminals: either it leaves
the string as well, or the string is the name of the filter with which it ends. -/
def Leftover (s : String) (rest us : List Terminal) : Prop := us = rest ++ [nameAtEnd s] ∨ us = []

theorem Leftover.begins {s lexeme : String} {us : List Terminal} (h : Leftover s rest us)
    (hrest : begins rest lexeme = false) : begins us lexeme = false := by
  rcases h with rfl | rfl
  · exact begins_append_nameAtEnd hrest s
  · rfl

/-! ## A string at the end -/

/-- With a string after the terminals, a phrase is derived without the help of the end of the
stream. If it takes the string, there is a pipe before it. -/
def Extended (s : String) (d : Nat) (p : Phrase) (ts rest : List Terminal) : Prop :=
  Derives none d p (ts ++ [nameAtEnd s]) (rest ++ [nameAtEnd s]) ∨
    rest = [] ∧ ¬ EndsWithoutPipe ts ∧ Derives none d p (ts ++ [nameAtEnd s]) []

namespace Extended

variable {s : String} {d' d'' : Nat} {q r : Phrase} {us ts' : List Terminal} {t : Terminal}

theorem map (h : Extended s d q ts rest) (hts : ts <:+ ts')
    (hp : ∀ vs, Leftover s rest vs → Derives none d q (ts ++ [nameAtEnd s]) vs →
      Derives none d' p (ts' ++ [nameAtEnd s]) vs) : Extended s d' p ts' rest := by
  rcases h with h | ⟨rfl, hpipe, h⟩
  · exact .inl (hp _ (.inl rfl) h)
  · exact .inr ⟨rfl, fun hts' ↦ hpipe (hts'.of_suffix hts), hp _ (.inr rfl) h⟩

/-- A phrase of two parts. If the first one has used up the end of the stream, the second one has
nothing to do with it. -/
theorem bind (h : Extended s d q ts us) (h' : Extended s d' r us rest)
    (htail : Derives (some s) d' r us rest) (hts : ts <:+ ts') (hus : us <:+ ts)
    (hp : ∀ vs ws, Leftover s us vs → Derives none d q (ts ++ [nameAtEnd s]) vs →
      Derives none d' r vs ws → Derives none d'' p (ts' ++ [nameAtEnd s]) ws) :
    Extended s d'' p ts' rest := by
  rcases h with h | ⟨rfl, hpipe, h⟩
  · exact h'.map (hus.trans hts) fun _ _ ↦ hp _ _ (.inl rfl) h
  · obtain ⟨rfl, hnil⟩ := htail.of_nil
    exact .inr ⟨rfl, fun hts' ↦ hpipe (hts'.of_suffix hts), hp _ _ (.inr rfl) h hnil⟩

theorem of_cons (h : Extended s d p ts (t :: rest)) :
    Derives none d p (ts ++ [nameAtEnd s]) (t :: (rest ++ [nameAtEnd s])) := by
  rcases h with h | ⟨hnil, -⟩
  · exact h
  · cases hnil

end Extended

theorem extended_of_some {s : String} (h : Derives (some s) d p ts rest) :
    Extended s d p ts rest := by
  induction h with
  | expression head tail ih ih' =>
    exact ih.bind ih' tail (List.suffix_refl _) head.rest_suffix fun _ _ _ h h' ↦ .expression h h'
  | noSuffix hcall hpipe =>
    exact .inl (.noSuffix (begins_append_nameAtEnd hcall s) (begins_append_nameAtEnd hpipe s))
  | call ht head tail ih ih' =>
    exact ih.bind ih' tail (List.suffix_cons _ _) head.rest_suffix fun _ _ _ h h' ↦ .call ht h h'
  | filter ht hnone _ ih =>
    refine ih.map ((List.suffix_cons _ _).trans (List.suffix_cons _ _)) fun _ _ h ↦ ?_
    exact .filter ht (begins_append_nameAtEnd hnone s) h
  | filterWith ht ht' head tail ih ih' =>
    exact ih.bind ih' tail ((List.suffix_cons _ _).trans
      ((List.suffix_cons _ _).trans (List.suffix_cons _ _))) head.rest_suffix
      fun _ _ _ h h' ↦ .filterWith ht ht' h h'
  | @filterAtEnd e t name hname ht =>
    cases hname
    refine .inr ⟨rfl, fun hts ↦ absurd (hts t rfl) (by simp [ht]), ?_⟩
    have hend : Derives none 0 (.suffixes (.filter s [e]) (.filter s [e])) [] [] :=
      .noSuffix rfl rfl
    exact .filter ht rfl hend
  | noArguments ht => exact .inl (.noArguments ht)
  | someArguments hsome _ tail ht ih ih' =>
    rcases ih with h | ⟨rfl, -⟩
    · exact .inl (.someArguments (begins_append_nameAtEnd hsome s) h ih'.of_cons ht)
    · cases tail.of_nil.1
  | listEnd hend => exact .inl (.listEnd (begins_append_nameAtEnd hend s))
  | listMore ht head tail ih ih' =>
    exact ih.bind ih' tail (List.suffix_cons _ _) head.rest_suffix
      fun _ _ _ h h' ↦ .listMore ht h h'
  | noElements ht => exact .inl (.noElements ht)
  | element hsome head hnone tail ih ih' =>
    refine ih.bind ih' tail (List.suffix_refl _) head.rest_suffix fun _ _ hvs h h' ↦ ?_
    exact .element (begins_append_nameAtEnd hsome s) h (hvs.begins hnone) h'
  | elementComma hsome head ht _ ih ih' =>
    refine ih'.map ((List.suffix_cons _ _).trans head.rest_suffix) fun _ _ h ↦ ?_
    exact .elementComma (begins_append_nameAtEnd hsome s) ih.of_cons ht h
  | noChoice _ hend ih =>
    exact ih.map (List.suffix_refl _) fun _ hvs h ↦ .noChoice h (hvs.begins hend)
  | choice head ht middle ht' _ ih ih' ih'' =>
    have hsuffix := (List.suffix_cons _ _).trans middle.rest_suffix
    refine ih''.map (hsuffix.trans ((List.suffix_cons _ _).trans head.rest_suffix)) fun _ _ h ↦ ?_
    exact .choice ih.of_cons ht ih'.of_cons ht' h
  | single _ ih => exact ih.map (List.suffix_refl _) fun _ _ h ↦ .single h
  | chain head tail ih ih' =>
    exact ih.bind ih' tail (List.suffix_refl _) head.rest_suffix fun _ _ _ h h' ↦ .chain h h'
  | chainEnd hend => exact .inl (.chainEnd (operator?_append hend fun _ ↦ operator?_nameAtEnd s))
  | chainMore hop head tail ih ih' =>
    exact ih.bind ih' tail (List.suffix_cons _ _) head.rest_suffix
      fun _ _ _ h h' ↦ .chainMore hop h h'
  | parentheses ht _ ht' ih => exact .inl (.parentheses ht ih.of_cons ht')
  | array ht _ ih => exact ih.map (List.suffix_cons _ _) fun _ _ h ↦ .array ht h
  | unary hkind hop _ ih =>
    exact ih.map (List.suffix_cons _ _) fun _ _ h ↦ .unary hkind hop h
  | number hkind hv => exact .inl (.number hkind hv)
  | string hkind => exact .inl (.string hkind)
  | word hkind hparen hbracket => exact .inl (.word hkind hparen hbracket)

/-! ## Names from the end of the stream -/

/-- Other terminals may stand in the place of those that a phrase leaves. If the phrase has its last
name from the end of the stream, it leaves none, and the name has to be written out. -/
theorem exists_eq_append_or {s : String} (h : Derives (some s) d p ts rest)
    (hp : p.levels ⊆ BinaryOp.levels) : ∃ ws, ts = ws ++ rest ∧
      ((∀ us, p.MayLeave rest us → Derives none d p (ws ++ us) us) ∨
        rest = [] ∧ ¬ EndsWithoutPipe ts ∧
          ∀ us, p.MayLeave [] us → Derives none d p (ws ++ nameAtEnd s :: us) us) := by
  rcases h.extended_of_some with hext | ⟨rfl, hpipe, hext⟩
  · obtain ⟨ws, hws, hleaves⟩ := hext.exists_eq_append hp
    rw [← List.append_assoc] at hws
    refine ⟨ws, List.append_cancel_right hws, .inl fun us hus ↦ hleaves us (hus.imp_left ?_)⟩
    rintro ⟨hne, hhead⟩
    obtain ⟨t, rest, rfl⟩ := List.exists_cons_of_ne_nil hne
    exact ⟨List.cons_ne_nil _ _, hhead⟩
  · obtain ⟨ws, hws, hleaves⟩ := hext.exists_eq_append hp
    rw [List.append_nil] at hws
    refine ⟨ts, (List.append_nil ts).symm, .inr ⟨rfl, hpipe, fun us hus ↦ ?_⟩⟩
    have hder := hleaves us hus
    rwa [← hws, List.append_assoc] at hder

/-- The end of the stream has no part in a derivation from terminals of which the last is no
pipe. -/
theorem of_endsWithoutPipe {s : String} (h : Derives (some s) d p ts rest)
    (hp : p.levels ⊆ BinaryOp.levels) (hts : EndsWithoutPipe ts) : Derives none d p ts rest := by
  obtain ⟨ws, rfl, hleaves | ⟨-, hpipe, -⟩⟩ := h.exists_eq_append_or hp
  · exact hleaves rest (.refl rest)
  · exact absurd hts hpipe

end Derives

end TemplateExpr
