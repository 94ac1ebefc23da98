import TemplateExpr.Proofs.Building
import TemplateExpr.Proofs.Recognition
import TemplateExpr.Proofs.Repetition

/-!
# Where a reading stops

What a failure tells of the tokens before the one it names. No production looks beyond the next
token, so a reading that stops there stops there whatever comes later (`Failure.stops`). And it has
stopped in the middle of phrases that it would have completed if other tokens had followed
(`Failure.mends`).

## What is missing

The terminals that are missing are put together from the inside, each production adding those by
which it would have ended (`Reading.Seals`). The first of them is the remedy of the error: the
delimiter that was expected, or a name where an operand was. The others continue nothing, so that
they can be put after whatever has been read.

## Rules for the ways of putting together

Both facts are kept by the ways in which productions are made of their parts, and there is one rule
here for each of them. In a sequence the second part matters: to tell what other tokens would have
led to, the first part has to be read again before them, which is what derivations in context are
for. It is the same part before tokens that continue nothing, and before those that begin in the
same way.

## Levels

A reading that stops because no level is left has nothing to wait for, with one exception. Where a
list may be empty, its closing delimiter is looked for before a level is opened.
-/

namespace TemplateExpr

open Terminal

/-! ## Reasons -/

/-- The terminal of a name. -/
def someName : Terminal := ⟨.identifier, "a"⟩

/-- What ends a list that may be empty. -/
inductive ListEnd where
  /-- A closing parenthesis. -/
  | parenthesis
  /-- A closing bracket. -/
  | bracket

def ListEnd.lexeme : ListEnd → String
  | parenthesis => ")"
  | bracket => "]"

/-- Why a reading has stopped. -/
inductive Reason where
  /-- The token begins no operand. -/
  | unexpected
  /-- A delimiter is missing. -/
  | expected (lexeme : String)
  /-- No level is left. The end of a list may be allowed where the level would be opened. -/
  | tooDeep (exit : Option ListEnd)

namespace Reason

def error : Reason → Token → ParseError
  | unexpected, t => .unexpectedToken t
  | expected lexeme, t => .expectedToken lexeme t
  | tooDeep _, t => .nestingTooDeep t

def remedy? : Reason → Option Terminal
  | unexpected => some someName
  | expected lexeme => some (symbol lexeme)
  | tooDeep exit => exit.map fun l ↦ symbol l.lexeme

/-- The reason why a reading has stopped before some terminals is one before others, too. -/
def Stands : Reason → List Terminal → List Terminal → Prop
  | tooDeep exit, _, us => ∀ l ∈ exit, begins us l.lexeme = false
  | _, rest, us => rest ≠ [] ∧ us.head? = rest.head?

/-- The reading has stopped because of the token itself, and its remedy continues nothing. -/
def Plain : Reason → Prop
  | unexpected => True
  | expected lexeme => lexeme ∈ closers
  | tooDeep _ => False

variable {why : Reason} {rest us : List Terminal} {t : Terminal}

theorem plain_of_eq (h : why = unexpected) : why.Plain := h ▸ trivial

theorem Plain.head?_eq_of_stands (h : why.Plain) (hus : why.Stands rest us) :
    rest ≠ [] ∧ us.head? = rest.head? := by
  cases why with
  | unexpected | expected => exact hus
  | tooDeep => exact h.elim

theorem Plain.closes_of_mem_remedy? (h : why.Plain) (ht : t ∈ why.remedy?) (us : List Terminal) :
    Closes (t :: us) := by
  cases why with
  | unexpected =>
    obtain rfl := Option.some.inj ht
    refine ⟨rfl, rfl, rfl, fun operators hmem ↦ ?_⟩
    have hname : ∀ operators ∈ BinaryOp.levels, "a" ∉ operators.map Prod.fst := by decide
    exact operator?_eq_none (t := someName) rfl (hname operators hmem) us
  | expected =>
    obtain rfl := Option.some.inj ht
    exact closes_symbol h us
  | tooDeep => exact h.elim

end Reason

/-! ## Productions that can be moved -/

/-- Some terminals before `rest` are one of some phrases, with fewer levels than `bound` and without
the help of the end of the stream. -/
def Can {α : Type} (bound : Nat) (phrase : α → Phrase) (ts rest : List Terminal) : Prop :=
  ∃ a, ∃ d < bound, Derives none d (phrase a) ts rest

namespace Reading

variable {α β : Type} {bound : Nat} {phrase : α → Phrase} {c : Cursor}
  {ts us vs ws rest front : List Terminal} {t : Terminal} {why : Reason}

/-- A reading that reads the phrases of a kind and nothing else. None of them is empty. -/
structure Exact (bound : Nat) (phrase : α → Phrase) (x : Reading α) : Prop where
  /-- What is read is derived. -/
  sound : ∀ c, Sound c.stop bound phrase x c
  /-- What is derived is read. -/
  complete : ∀ c, Complete c.stop bound phrase x c
  /-- The phrases have a terminal at least. -/
  least : ∀ a, (phrase a).least = 1
  /-- The phrases are made of the levels of the grammar. -/
  levels : ∀ a, (phrase a).levels ⊆ BinaryOp.levels

namespace Exact

variable {x : Reading α} {a : α} {c' : Cursor} {d : Nat}

theorem advances (hx : Exact bound phrase x) : Advances x := by
  intro c a c' h
  obtain ⟨-, d, -, hder⟩ := hx.sound c h
  exact hder.length_ahead_lt (hx.least a) rfl rfl

theorem isListRest_eq_false (hx : Exact bound phrase x) (a : α) :
    (phrase a).isListRest = false := by
  have hleast := hx.least a
  cases hp : phrase a with
  | listRest es => simp [hp, Phrase.least] at hleast
  | _ => rfl

/-- A phrase that is there is read, whatever the end token. -/
theorem exists_ok_of_derives (hx : Exact bound phrase x) (hd : d < bound)
    (h : Derives none d (phrase a) ts rest) (hts : c.terminals = ts) :
    ∃ c', x c = .ok a c' ∧ c'.terminals = rest := by
  subst hts
  obtain ⟨c', hc', -, hrest⟩ := (hx.complete c h.mono).ok hd
  exact ⟨c', hc', hrest⟩

/-- What has been read is there before other terminals as well, or else it has taken its last name
from the end of the stream. -/
theorem exists_eq_append (hx : Exact bound phrase x) (h : x c = .ok a c') :
    ∃ ws d, c.terminals = ws ++ c'.terminals ∧ ws ≠ [] ∧ d < bound ∧
      ((∀ us, (phrase a).MayLeave c'.terminals us → Derives none d (phrase a) (ws ++ us) us) ∨
        c'.terminals = [] ∧ ∃ s, ∀ us, (phrase a).MayLeave [] us →
          Derives none d (phrase a) (ws ++ Derives.nameAtEnd s :: us) us) := by
  obtain ⟨-, d, hd, hder⟩ := hx.sound c h
  obtain ⟨ws, hws, hleaves⟩ := hder.exists_eq_append_or (hx.levels a)
  have hne : ws ≠ [] := Derives.front_ne_nil (hws ▸ hder) (hx.least a)
  exact ⟨ws, d, hws, hne, hd, hleaves.imp_right fun h ↦ ⟨h.1, _, h.2.2⟩⟩

end Exact

/-! ## Failures -/

/-- Terminals that complete what stands before them, whatever does not go on with it. -/
structure Completes (D : List Terminal → List Terminal → Prop) (front us : List Terminal) :
    Prop where
  /-- The end token is not among them. -/
  kind_ne_eof : ∀ t ∈ us, t.kind ≠ .eof
  /-- They do complete it. -/
  derives : ∀ {rest}, Closes rest → D (front ++ (us ++ rest)) rest

/-- What a reading has in common with others that have read the same terminals, once it has
stopped. -/
structure Failure (D : List Terminal → List Terminal → Prop) (r : Reading α)
    (front rest : List Terminal) (why : Reason) : Prop where
  /-- Before any terminals for which the reason stands they stop there, too. -/
  stops : ∀ {c us}, c.terminals = front ++ us → why.Stands rest us →
    ∃ c', r c = .error (why.error c'.peek) c' ∧ c'.terminals = us
  /-- If there is a remedy, what has been read can be completed. The remedy comes first, unless a
  name at the end of the stream has to be written out before it. -/
  mends : ∀ {t}, t ∈ why.remedy? → ∃ us, Completes D front us ∧
    (front = [] ∨ ¬ why.Plain → us.head? = some t)

/-- What is known of a reading at a cursor if it fails there. At its beginning it fails for some
reasons only. -/
def Fails (initial : Reason → Prop) (D : List Terminal → List Terminal → Prop) (r : Reading α)
    (c : Cursor) : Prop :=
  ∀ e c', r c = .error e c' → ∃ front why, c.terminals = front ++ c'.terminals ∧
    e = why.error c'.peek ∧ (front = [] → initial why) ∧ Failure D r front c'.terminals why

abbrev anyReason : Reason → Prop := fun _ ↦ True

/-- Terminals that complete a phrase around another one, where that one ends. -/
structure Seals (D D' : List Terminal → List Terminal → Prop) (vs : List Terminal) : Prop where
  /-- The end token is not among them. -/
  kind_ne_eof : ∀ t ∈ vs, t.kind ≠ .eof
  /-- The phrase inside does not go on with them. -/
  ends : ∀ {rest}, Closes rest → Closes (vs ++ rest)
  /-- They do complete it. -/
  derives : ∀ {ts rest}, Closes rest → D ts (vs ++ rest) → D' ts rest

namespace Seals

variable {D D' : List Terminal → List Terminal → Prop}

theorem nil (h : ∀ {ts rest}, Closes rest → D ts rest → D' ts rest) : Seals D D' [] :=
  ⟨nofun, fun hrest ↦ hrest, h⟩

theorem symbol {s : String} (hs : s ∈ closers)
    (h : ∀ {ts rest}, Closes rest → D ts (symbol s :: rest) → D' ts rest) :
    Seals D D' [Terminal.symbol s] :=
  ⟨List.forall_mem_singleton.2 nofun, fun _ ↦ closes_symbol hs _, h⟩

end Seals

namespace Failure

variable {D D' : List Terminal → List Terminal → Prop} {r r' : Reading α}

/-- A reading that fails because its first part does. -/
theorem of_error (h : Failure D r front rest why) (hvs : Seals D D' vs) {r' : Reading β}
    (hr : ∀ {c e c'}, r c = .error e c' → r' c = .error e c') :
    Failure D' r' front rest why where
  stops hts hus := by
    obtain ⟨c', hc', hrest⟩ := h.stops hts hus
    exact ⟨c', hr hc', hrest⟩
  mends ht := by
    obtain ⟨us, hus, hhead⟩ := h.mends ht
    refine ⟨us ++ vs, ⟨?_, fun hrest ↦ ?_⟩, fun hfront ↦ ?_⟩
    · exact List.forall_mem_append.2 ⟨hus.kind_ne_eof, hvs.kind_ne_eof⟩
    · rw [List.append_assoc]
      exact hvs.derives hrest (hus.derives (hvs.ends hrest))
    · rw [List.head?_append, hhead hfront]
      rfl

end Failure

/-! ## Single steps -/

namespace Fails

variable {D D' : List Terminal → List Terminal → Prop} {r r' : Reading α}
  {initial initial' : Reason → Prop}

theorem of_ok {a : α} {c' : Cursor} (h : r c = .ok a c') : Fails initial D r c := by
  intro e c'' h'
  cases h.symm.trans h'

theorem mono (h : Fails initial D r c) (hinitial : ∀ {why}, initial why → initial' why)
    (hD : ∀ {ts rest}, Closes rest → D ts rest → D' ts rest) : Fails initial' D' r c := by
  intro e c' h'
  obtain ⟨front, why, hts, he, hfront, hfail⟩ := h _ _ h'
  exact ⟨front, why, hts, he, fun hnil ↦ hinitial (hfront hnil), hfail.of_error (.nil hD) id⟩

theorem fails_anyReason (h : Fails initial D r c) : Fails anyReason D r c :=
  h.mono (fun _ ↦ trivial) fun _ h ↦ h

theorem fails_plain (h : Fails (· = .unexpected) D r c) : Fails Reason.Plain D r c :=
  h.mono Reason.plain_of_eq fun _ h ↦ h

/-- A reading that goes on as another one, wherever the same terminal comes next. -/
theorem of_eq (hr : ∀ {c₁ : Cursor}, c₁.terminals.head? = c.terminals.head? → r c₁ = r' c₁)
    (h : Fails initial D' r' c) (hplain : ∀ {why}, initial why → why.Plain)
    (hD : ∀ {ts rest}, Closes rest →
      (ts.head? = c.terminals.head? ∨ ∃ why, initial why ∧ ts.head? = why.remedy?) →
      D' ts rest → D ts rest) : Fails initial D r c := by
  intro e c' h'
  rw [hr rfl] at h'
  obtain ⟨front, why, hts, he, hfront, hfail⟩ := h _ _ h'
  have hhead : ∀ {us}, front ≠ [] → (front ++ us).head? = c.terminals.head? := by
    intro us hne
    rw [hts, List.head?_append_of_ne_nil _ hne, List.head?_append_of_ne_nil _ hne]
  refine ⟨front, why, hts, he, hfront, fun {c₁ us} hc₁ hus ↦ ?_, fun {t} ht ↦ ?_⟩
  · obtain ⟨c₂, hc₂, hrest⟩ := hfail.stops hc₁ hus
    refine ⟨c₂, (hr ?_).trans hc₂, hrest⟩
    by_cases hnil : front = []
    · rw [hc₁, hts, hnil, List.nil_append, List.nil_append,
        ((hplain (hfront hnil)).head?_eq_of_stands hus).2]
    · rw [hc₁, hhead hnil]
  · obtain ⟨us, hus, hfirst⟩ := hfail.mends ht
    refine ⟨us, ⟨hus.kind_ne_eof, fun hrest ↦ hD hrest ?_ (hus.derives hrest)⟩, hfirst⟩
    by_cases hnil : front = []
    · refine .inr ⟨why, hfront hnil, ?_⟩
      rw [hnil, List.nil_append, List.head?_append, hfirst (.inl hnil), ht]
      rfl
    · exact .inl (hhead hnil)

theorem skip (hts : c.terminals = t :: c.skip.terminals)
    (hr : ∀ {c₁ : Cursor}, c₁.terminals.head? = some t → r c₁ = r' c₁.skip)
    (h : Fails anyReason (fun ts rest ↦ D (t :: ts) rest) r' c.skip) : Fails initial D r c := by
  intro e c' h'
  rw [hr (by rw [hts, List.head?_cons])] at h'
  obtain ⟨front, why, hts', he, -, hfail⟩ := h _ _ h'
  refine ⟨t :: front, why, by rw [hts, hts', List.cons_append], he, nofun,
    fun {c₁ us} hc₁ hus ↦ ?_, fun {t'} ht ↦ ?_⟩
  · obtain ⟨c₂, hc₂, hrest⟩ := hfail.stops (Cursor.skip_of_terminals hc₁) hus
    exact ⟨c₂, (hr (by rw [hc₁]; rfl)).trans hc₂, hrest⟩
  · obtain ⟨us, hus, hfirst⟩ := hfail.mends ht
    exact ⟨us, ⟨hus.kind_ne_eof, hus.derives⟩, fun hor ↦ hfirst (hor.imp_left nofun)⟩

/-! ## Delimiters -/

theorem skip_of_peekIs {lexeme : String} (hc : c.peekIs lexeme = true)
    (hr : ∀ {c₁ : Cursor}, c₁.peekIs lexeme = true → r c₁ = r' c₁.skip)
    (h : ∀ {t}, t.spells lexeme = true →
      Fails anyReason (fun ts rest ↦ D (t :: ts) rest) r' c.skip) : Fails initial D r c := by
  obtain ⟨t, hts, ht⟩ := Cursor.terminals_of_peekIs hc
  refine .skip hts (fun hc₁ ↦ hr ?_) (h ht)
  rw [Cursor.peekIs_of_head? hc₁, ht]

theorem of_not_peekIs {lexeme : String} (hc : c.peekIs lexeme = false)
    (hname : someName.spells lexeme = false)
    (hr : ∀ {c₁ : Cursor}, c₁.peekIs lexeme = false → r c₁ = r' c₁)
    (h : Fails (· = .unexpected) D' r' c)
    (hD : ∀ {ts rest}, Closes rest → begins ts lexeme = false → D' ts rest → D ts rest) :
    Fails (· = .unexpected) D r c := by
  refine .of_eq (fun hc₁ ↦ hr ?_) h Reason.plain_of_eq fun hrest hts ↦ hD hrest ?_
  · rw [Cursor.peekIs_congr hc₁, hc]
  · rcases hts with hts | ⟨-, rfl, hts⟩
    · rwa [begins, hts, ← begins, ← Cursor.peekIs_eq_begins]
    · rw [begins, hts]
      exact hname

/-! ## Sequences -/

theorem map {x : Reading α} (g : α → β) (h : Fails initial D x c) :
    Fails initial D (x >>= fun a ↦ pure (g a)) c := by
  intro e c' h'
  cases hx : x c with
  | ok a c₁ =>
    rw [bind_of_ok hx] at h'
    cases h'
  | error e₁ c₁ =>
    rw [bind_of_error hx] at h'
    cases h'
    obtain ⟨front, why, hts, he, hfront, hfail⟩ := h _ _ hx
    exact ⟨front, why, hts, he, hfront, hfail.of_error (.nil fun _ h ↦ h) bind_of_error⟩

/-- A sequence. If the first part fails, the second one is sealed off. If it does not, it is read
again before whatever makes the second part stop or complete. -/
theorem bind {x : Reading α} {f : α → Reading β} (hx : Exact bound phrase x)
    (head : Fails initial (Can bound phrase) x c) (hvs : Seals (Can bound phrase) D vs)
    (tail : ∀ {a c'}, x c = .ok a c' → Fails Reason.Plain (fun us rest ↦
      ∀ {d ts}, d < bound → Derives none d (phrase a) ts us → D ts rest) (f a) c') :
    Fails initial D (x >>= f) c := by
  intro e c₂ h
  cases hxc : x c with
  | error e₁ c₁ =>
    rw [bind_of_error hxc] at h
    cases h
    obtain ⟨front, why, hts, he, hfront, hfail⟩ := head _ _ hxc
    exact ⟨front, why, hts, he, hfront, hfail.of_error hvs bind_of_error⟩
  | ok a c₁ =>
    rw [bind_of_ok hxc] at h
    obtain ⟨front, why, hts, he, hfront, hfail⟩ := tail hxc _ _ h
    obtain ⟨ws, d, hws, hne, hd, hleaves⟩ := hx.exists_eq_append hxc
    have hne' : ws ++ front ≠ [] := List.append_ne_nil_of_left_ne_nil hne front
    refine ⟨ws ++ front, why, by rw [hws, hts, List.append_assoc], he,
      fun hnil ↦ absurd hnil hne', fun {c₃ us} hc₃ hus ↦ ?_, fun {t} ht ↦ ?_⟩
    · rw [List.append_assoc] at hc₃
      rcases hleaves with hleaves | ⟨hnil, -⟩
      · have hmay : (phrase a).MayLeave c₁.terminals (front ++ us) := by
          rw [hts]
          cases front with
          | nil => exact .inl ((hfront rfl).head?_eq_of_stands hus)
          | cons t front => exact .cons _ t _ _
        obtain ⟨c₄, hc₄, hrest⟩ := hx.exists_ok_of_derives hd (hleaves _ hmay) hc₃
        obtain ⟨c₅, hc₅, hrest'⟩ := hfail.stops hrest hus
        exact ⟨c₅, (bind_of_ok hc₄).trans hc₅, hrest'⟩
      · -- at the end of the stream there is no token for the reason to stand
        obtain ⟨hnil, hnil'⟩ := List.append_eq_nil_iff.1 (hts.symm.trans hnil)
        exact absurd hnil' ((hfront hnil).head?_eq_of_stands hus).1
    · obtain ⟨us, hus, hfirst⟩ := hfail.mends ht
      have hmay : ∀ rest', (phrase a).MayLeave c₁.terminals (front ++ (us ++ rest')) := by
        intro rest'
        rw [hts]
        cases front with
        | nil =>
          obtain ⟨us', rfl⟩ := List.head?_eq_some_iff.1 (hfirst (.inl rfl))
          exact .of_closes ((hfront rfl).closes_of_mem_remedy? ht _) (hx.isListRest_eq_false a)
        | cons t front => exact .cons _ t _ _
      rcases hleaves with hleaves | ⟨hnil, s, hleaves⟩
      · refine ⟨us, ⟨hus.kind_ne_eof, fun {rest} hrest ↦ ?_⟩,
          fun hor ↦ hfirst (hor.imp_left fun hnil ↦ absurd hnil hne')⟩
        rw [List.append_assoc]
        exact hus.derives hrest hd (hleaves _ (hmay rest))
      · obtain ⟨rfl, -⟩ := List.append_eq_nil_iff.1 (hts.symm.trans hnil)
        refine ⟨Derives.nameAtEnd s :: us,
          ⟨List.forall_mem_cons.2 ⟨nofun, hus.kind_ne_eof⟩, fun {rest} hrest ↦ ?_⟩, ?_⟩
        · rw [List.append_nil]
          exact hus.derives hrest hd (hleaves _ (hnil ▸ hmay rest))
        · rintro (hnil | hplain)
          · exact absurd hnil hne'
          · exact absurd (hfront rfl) hplain

theorem expect {lexeme : String} {y : Reading α} (hlexeme : lexeme ∈ closers)
    (vs : List Terminal) (hvs : ∀ t ∈ vs, t.kind ≠ .eof)
    (hD : ∀ {rest}, Closes rest → D (symbol lexeme :: (vs ++ rest)) rest)
    (hy : ∀ {t}, t.spells lexeme = true →
      Fails anyReason (fun ts rest ↦ D (t :: ts) rest) y c.skip) :
    Fails Reason.Plain D (Grammar.expect lexeme >>= fun _ ↦ y) c := by
  by_cases hc : c.peekIs lexeme = true
  · exact .skip_of_peekIs hc (fun hc₁ ↦ bind_of_ok (expect_of_true hc₁)) hy
  · have hfails : ∀ {c₁ : Cursor}, c₁.terminals.head? = c.terminals.head? →
        (Grammar.expect lexeme >>= fun _ ↦ y : Reading α) c₁ =
          .error (.expectedToken lexeme c₁.peek) c₁ := by
      intro c₁ hc₁
      refine bind_of_error ?_
      rw [expect_apply, if_neg]
      rwa [Cursor.peekIs_congr hc₁]
    intro e c' h
    cases (hfails rfl).symm.trans h
    refine ⟨[], .expected lexeme, rfl, rfl, fun _ ↦ hlexeme, fun {c₁ us} hc₁ hus ↦ ?_,
      fun {t} ht ↦ ?_⟩
    · rw [List.nil_append] at hc₁
      exact ⟨c₁, hfails (by rw [hc₁, hus.2]), hc₁⟩
    · obtain rfl := Option.some.inj ht
      exact ⟨symbol lexeme :: vs, ⟨List.forall_mem_cons.2 ⟨nofun, hvs⟩, hD⟩, fun _ ↦ rfl⟩

/-! ## Where a reading stops by itself -/

theorem unexpected (hr : ∀ {c₁ : Cursor}, c₁.terminals.head? = c.terminals.head? →
      r c₁ = .error (.unexpectedToken c₁.peek) c₁)
    (hD : ∀ {rest}, Closes rest → D (someName :: rest) rest) : Fails (· = .unexpected) D r c := by
  intro e c' h
  cases (hr rfl).symm.trans h
  refine ⟨[], .unexpected, rfl, rfl, fun _ ↦ rfl, fun {c₁ us} hc₁ hus ↦ ?_, fun {t} ht ↦ ?_⟩
  · rw [List.nil_append] at hc₁
    exact ⟨c₁, hr (by rw [hc₁, hus.2]), hc₁⟩
  · obtain rfl := Option.some.inj ht
    exact ⟨[someName], ⟨by decide, hD⟩, fun _ ↦ rfl⟩

theorem tooDeep : Fails anyReason D Grammar.tooDeep c := by
  intro e c' h
  cases h
  exact ⟨[], .tooDeep none, rfl, rfl, fun _ ↦ trivial, fun {c₁ us} hc₁ _ ↦ ⟨c₁, rfl, hc₁⟩, nofun⟩

theorem of_tooDeep_of_not_peekIs {l : ListEnd} (hc : c.peekIs l.lexeme = false)
    (hr : ∀ {c₁ : Cursor}, c₁.peekIs l.lexeme = false →
      r c₁ = .error (.nestingTooDeep c₁.peek) c₁)
    (hD : ∀ {rest}, D (symbol l.lexeme :: rest) rest) : Fails anyReason D r c := by
  intro e c' h
  cases (hr hc).symm.trans h
  refine ⟨[], .tooDeep (some l), rfl, rfl, fun _ ↦ trivial, fun {c₁ us} hc₁ hus ↦ ?_,
    fun {t} ht ↦ ?_⟩
  · rw [List.nil_append] at hc₁
    exact ⟨c₁, hr (by rw [Cursor.peekIs_eq_begins, hc₁, hus l rfl]), hc₁⟩
  · obtain rfl := Option.some.inj ht
    exact ⟨[symbol l.lexeme], ⟨List.forall_mem_singleton.2 nofun, fun _ ↦ hD⟩, fun _ ↦ rfl⟩

/-- A whole stream fails as well where something is left over. What is before that is complete. -/
theorem toEnd {x : Reading α} (hx : Exact bound phrase x)
    (h : Fails initial (Can bound phrase) x c) :
    Fails initial (Can bound phrase) (toEnd x) c := by
  intro e c₂ h'
  cases hxc : x c with
  | error e₁ c₁ =>
    have hx' := bind_of_error (f := fun a ↦ Grammar.finish >>= fun _ ↦ pure a) hxc
    cases hx'.symm.trans h'
    obtain ⟨front, why, hts, he, hfront, hfail⟩ := h _ _ hxc
    exact ⟨front, why, hts, he, hfront, hfail.of_error (.nil fun _ h ↦ h) bind_of_error⟩
  | ok a c₁ =>
    have hleft : c₁.terminals ≠ [] := by
      intro hnil
      cases (toEnd_of_ok hxc hnil).symm.trans h'
    cases (toEnd_of_left hxc hleft).symm.trans h'
    obtain ⟨ws, d, hws, hne, hd, hleaves | ⟨hnil, -⟩⟩ := hx.exists_eq_append hxc
    · refine ⟨ws, .unexpected, hws, rfl, fun hnil ↦ absurd hnil hne, fun {c₃ us} hc₃ hus ↦ ?_,
        fun {t} _ ↦ ⟨[], ⟨nofun, fun {rest} hrest ↦ ?_⟩, ?_⟩⟩
      · obtain ⟨c₄, hc₄, hrest⟩ := hx.exists_ok_of_derives hd (hleaves us (.inl hus)) hc₃
        refine ⟨c₄, toEnd_of_left hc₄ fun hnil ↦ hus.1 ?_, hrest⟩
        rw [← List.head?_eq_none_iff, ← hus.2, ← hrest, hnil, List.head?_nil]
      · exact ⟨a, d, hd, hleaves _ (.of_closes hrest (hx.isListRest_eq_false a))⟩
      · rintro (hnil | hplain)
        · exact absurd hnil hne
        · exact absurd trivial hplain
    · exact absurd hnil hleft

end Fails

end Reading

end TemplateExpr
