import TemplateExpr.Json
import TemplateExpr.Proofs.Literals

/-!
# JSON texts determine their values

A JSON value without binary numbers is determined by its text, in either of its two forms, and so is
whatever comes after it (`Json.Style.write_cancel`). A value is known by the first character of its
text, and every part of it ends where the text shows it: a string at the first quote that is not
escaped, an array or an object at its closing bracket, and a whole number before the first character
that is not a digit.

## What comes after

A part of a value never stands at the end of the text, so each statement has a text behind the part
and gives it back along with the value. Only whole numbers need a condition on it: a digit there
would belong to the number. Commas, brackets and line breaks are no digits, so the condition is met
wherever a writer puts a value (`Ends`).

## Two forms, one proof

The two forms differ in what stands before the items of an array or an object and after a key. They
are two styles of one way of writing (`Json.Style`), and everything is shown for any style.

## Binary numbers

They are left out (`FloatFree`). Their texts are made by a search for digits, which is a matter of
its own and has no part in how the values are put together.
-/

namespace TemplateExpr.Json

open Text

/-! ## Values without binary numbers -/

/-- A value has no binary number in it. -/
inductive FloatFree : Json → Prop where
  | null : FloatFree null
  | bool (b : Bool) : FloatFree (bool b)
  | int (n : Int) : FloatFree (int n)
  | string (s : String) : FloatFree (string s)
  | array {es : List Json} (h : ∀ e ∈ es, FloatFree e) : FloatFree (array es)
  | object {ms : List (String × Json)} (h : ∀ m ∈ ms, FloatFree m.2) : FloatFree (object ms)

theorem FloatFree.object_nil : FloatFree (.object []) :=
  .object (List.forall_mem_nil _)

theorem FloatFree.object_cons {k : String} {j : Json} {ms : List (String × Json)} (h : FloatFree j)
    (hms : FloatFree (.object ms)) : FloatFree (.object ((k, j) :: ms)) := by
  cases hms with
  | object hms => exact .object (List.forall_mem_cons.2 ⟨h, hms⟩)

/-- The kinds of values. -/
inductive Kind where
  /-- The value `null`. -/
  | null
  /-- A truth value. -/
  | bool
  /-- A whole number. -/
  | int
  /-- A binary number. -/
  | float
  /-- A string. -/
  | string
  /-- An array. -/
  | array
  /-- An object. -/
  | object

def kind : Json → Kind
  | null => .null
  | bool _ => .bool
  | int _ => .int
  | float _ => .float
  | string _ => .string
  | array _ => .array
  | object _ => .object

/-- The kind of value that is not a binary number and whose text begins with a character. -/
def kindOfHead? (c : Char) : Option Kind :=
  match c with
  | 'n' => some .null
  | 't' | 'f' => some .bool
  | '"' => some .string
  | '[' => some .array
  | '\x7b' => some .object
  | '-' => some .int
  | c => if c.isDigit then some .int else none

theorem kindOfHead?_of_isDigit {c : Char} (h : c.isDigit = true) :
    kindOfHead? c = some .int := by
  rw [kindOfHead?.eq_def]
  split <;> first | rfl | exact absurd h (by decide) | exact if_pos h

/-! ## Whole numbers -/

/-- A text does not begin with a digit. -/
def Ends (rest : List Char) : Prop := ∀ c ∈ rest.head?, c.isDigit = false

variable {rest rest' : List Char}

theorem digits_cancel {m n : Nat} (hrest : Ends rest) (hrest' : Ends rest')
    (h : digits m ++ rest = digits n ++ rest') : m = n ∧ rest = rest' := by
  have htake : ∀ (n : Nat) {rest : List Char}, Ends rest →
      (digits n ++ rest).takeWhile Char.isDigit = digits n := by
    intro n rest hrest
    rw [takeWhile_append_of_head? hrest]
    exact List.takeWhile_eq_self_iff.2 fun c hc ↦ isDigit_of_mem_digits hc
  have hdigits : digits m = digits n := by
    rw [← htake m hrest, h, htake n hrest']
  have hvalue := congrArg (Nat.ofDigitChars 10 · 0) hdigits
  simp only [digits, Nat.ofDigitChars_ten_toDigits] at hvalue
  rw [hdigits] at h
  exact ⟨hvalue, List.append_cancel_left h⟩

theorem digits_eq_cons (n : Nat) : ∃ c cs, digits n = c :: cs ∧ c.isDigit = true := by
  obtain ⟨c, cs, hcs⟩ := List.exists_cons_of_ne_nil (Nat.toDigits_ne_nil (n := n) (b := 10))
  exact ⟨c, cs, hcs, isDigit_of_mem_digits (hcs ▸ List.mem_cons_self)⟩

theorem intChars_cancel {m n : Int} (hrest : Ends rest) (hrest' : Ends rest')
    (h : intChars m ++ rest = intChars n ++ rest') : m = n ∧ rest = rest' := by
  have hdigit : ∀ (k : Nat) (xs ys : List Char), digits k ++ xs ≠ '-' :: ys := by
    intro k xs ys heq
    obtain ⟨c, cs, hcs, hc⟩ := digits_eq_cons k
    rw [hcs] at heq
    obtain ⟨rfl, -⟩ := List.cons.inj heq
    exact absurd hc (by decide)
  rw [intChars, intChars] at h
  by_cases hm : m < 0 <;> by_cases hn : n < 0
  · rw [if_pos hm, if_pos hn] at h
    obtain ⟨habs, hcancel⟩ := digits_cancel hrest hrest' (List.cons.inj h).2
    exact ⟨by omega, hcancel⟩
  · rw [if_pos hm, if_neg hn] at h
    exact absurd h.symm (hdigit _ _ _)
  · rw [if_neg hm, if_pos hn] at h
    exact absurd h (hdigit _ _ _)
  · rw [if_neg hm, if_neg hn] at h
    obtain ⟨habs, hcancel⟩ := digits_cancel hrest hrest' h
    exact ⟨by omega, hcancel⟩

/-! ## Strings -/

/-- The value of a hexadecimal digit. -/
def hexValue (c : Char) : Nat := if c.isDigit then c.toNat - 48 else c.toNat - 87

/-- Reads the first character of a string as it is written in JSON. -/
def readEscaped? : List Char → Option (Char × List Char)
  | [] => none
  | '\\' :: 'u' :: '0' :: '0' :: m :: n :: rest =>
    some (Char.ofNat (16 * hexValue m + hexValue n), rest)
  | '\\' :: 'b' :: rest => some ('\x08', rest)
  | '\\' :: 'f' :: rest => some ('\x0c', rest)
  | '\\' :: 'n' :: rest => some ('\n', rest)
  | '\\' :: 'r' :: rest => some ('\r', rest)
  | '\\' :: 't' :: rest => some ('\t', rest)
  | '\\' :: c :: rest => some (c, rest)
  | c :: rest => some (c, rest)

/-- What is written for a character is read as that character. -/
theorem readEscaped?_escaped (c : Char) (rest : List Char) :
    readEscaped? (escaped c ++ rest) = some (c, rest) := by
  rw [escaped.eq_def]
  split
  · rfl
  · rfl
  · rfl
  · rfl
  · rfl
  · rfl
  · rfl
  · split
    · next hlow =>
      have hhex : ∀ n < 32, 16 * hexValue (Nat.digitChar (n / 16)) +
          hexValue (Nat.digitChar (n % 16)) = n := by decide
      show some (Char.ofNat _, rest) = _
      rw [hhex c.toNat hlow, Char.ofNat_toNat]
    · rw [List.singleton_append, readEscaped?.eq_def]
      split <;> simp_all

theorem escaped_cancel {c d : Char} (h : escaped c ++ rest = escaped d ++ rest') :
    c = d ∧ rest = rest' := by
  have hread := congrArg readEscaped? h
  rw [readEscaped?_escaped, readEscaped?_escaped, Option.some.injEq, Prod.mk.injEq] at hread
  exact hread

theorem escaped_ne_quote (c : Char) (xs ys : List Char) : escaped c ++ xs ≠ '"' :: ys := by
  rw [escaped.eq_def]
  split
  case h_8 hquote _ _ _ _ _ _ =>
    split
    · exact nofun
    · intro h
      exact hquote (List.cons.inj h).1
  all_goals exact nofun

theorem stringChars_cancel {s s' : String}
    (h : stringChars s ++ rest = stringChars s' ++ rest') : s = s' ∧ rest = rest' := by
  have hcancel : ∀ cs cs' : List Char,
      cs.flatMap escaped ++ '"' :: rest = cs'.flatMap escaped ++ '"' :: rest' →
        cs = cs' ∧ rest = rest' := by
    intro cs
    induction cs with
    | nil =>
      rintro (_ | ⟨c', cs'⟩) h
      · exact ⟨rfl, (List.cons.inj h).2⟩
      · rw [List.flatMap_cons, List.append_assoc] at h
        exact absurd h.symm (escaped_ne_quote _ _ _)
    | cons c cs ih =>
      rintro (_ | ⟨c', cs'⟩) h
      · rw [List.flatMap_cons, List.append_assoc] at h
        exact absurd h (escaped_ne_quote _ _ _)
      · rw [List.flatMap_cons, List.flatMap_cons, List.append_assoc, List.append_assoc] at h
        obtain ⟨rfl, hrest⟩ := escaped_cancel h
        obtain ⟨rfl, hcancel⟩ := ih cs' hrest
        exact ⟨rfl, hcancel⟩
  rw [stringChars, stringChars, List.cons_append, List.cons_append, List.append_assoc,
    List.append_assoc] at h
  obtain ⟨hs, hrest⟩ := hcancel _ _ (List.cons.inj h).2
  exact ⟨String.toList_inj.1 hs, hrest⟩

/-! ## Items -/

section Items

variable {α : Type} {item : α → List Char → List Char} {p : α → Prop}

/-- Writes items with commas between them in front of a text. -/
def writeItems (item : α → List Char → List Char) : List α → List Char → List Char
  | [], rest => rest
  | [a], rest => item a rest
  | a :: as, rest => item a (',' :: writeItems item as rest)

theorem writeItems_cons (item : α → List Char → List Char) (a : α) (as : List α)
    (rest : List Char) : ∃ xs, writeItems item (a :: as) rest = item a xs := by
  cases as with
  | nil => exact ⟨_, rfl⟩
  | cons => exact ⟨_, rfl⟩

theorem eq_writeItems {write : List α → List Char → List Char}
    (hnil : ∀ rest, write [] rest = rest) (hone : ∀ rest a, write [a] rest = item a rest)
    (hcons : ∀ a b as rest, write (a :: b :: as) rest = item a (',' :: write (b :: as) rest)) :
    write = writeItems item := by
  funext as rest
  induction as with
  | nil => exact hnil rest
  | cons a as ih =>
    cases as with
    | nil => exact hone rest a
    | cons b as =>
      rw [hcons, ih]
      rfl

/-- An item is determined by its text, among those with a property, and so is what comes after
it. -/
def Cancels (item : α → List Char → List Char) (p : α → Prop) (a : α) : Prop :=
  ∀ b rest rest', p b → Ends rest → Ends rest' → item a rest = item b rest' → a = b ∧ rest = rest'

/-- Items in front of a text that does not go on with a comma are determined by their text. -/
theorem writeItems_cancel {as bs : List α} (has : ∀ a ∈ as, Cancels item p a)
    (hbs : ∀ b ∈ bs, p b) (hne : as ≠ []) (hne' : bs ≠ []) (hrest : Ends rest)
    (hrest' : Ends rest') (hcomma : rest.head? ≠ some ',') (hcomma' : rest'.head? ≠ some ',')
    (h : writeItems item as rest = writeItems item bs rest') : as = bs ∧ rest = rest' := by
  have hends : ∀ xs : List Char, Ends (',' :: xs) := by
    rintro xs c ⟨⟩
    rfl
  induction as generalizing bs with
  | nil => exact absurd rfl hne
  | cons a as ih =>
    obtain ⟨b, bs, rfl⟩ := List.exists_cons_of_ne_nil hne'
    have hfirst : ∀ xs ys, Ends xs → Ends ys → item a xs = item b ys → a = b ∧ xs = ys :=
      fun xs ys ↦ has a List.mem_cons_self b xs ys (hbs b List.mem_cons_self)
    cases as with
    | nil =>
      cases bs with
      | nil =>
        obtain ⟨rfl, hcancel⟩ := hfirst _ _ hrest hrest' h
        exact ⟨rfl, hcancel⟩
      | cons b' bs =>
        obtain ⟨-, heq⟩ := hfirst _ _ hrest (hends _) h
        exact absurd (congrArg List.head? heq) hcomma
    | cons a' as =>
      cases bs with
      | nil =>
        obtain ⟨-, heq⟩ := hfirst _ _ (hends _) hrest' h
        exact absurd (congrArg List.head? heq).symm hcomma'
      | cons b' bs =>
        obtain ⟨rfl, heq⟩ := hfirst _ _ (hends _) (hends _) h
        obtain ⟨htail, hcancel⟩ := ih (fun a ha ↦ has a (List.mem_cons_of_mem _ ha))
          (fun b hb ↦ hbs b (List.mem_cons_of_mem _ hb)) (List.cons_ne_nil _ _)
          (List.cons_ne_nil _ _) (List.cons.inj heq).2
        exact ⟨congrArg (a :: ·) htail, hcancel⟩

/-! ## Brackets -/

/-- Writes items between brackets in front of a text, with a line's beginning before each of them
and before the closing bracket. Brackets with nothing between them stay together. -/
def container (line : Nat → List Char) (level : Nat) (first last : Char)
    (item : α → List Char → List Char) : List α → List Char → List Char
  | [], rest => first :: last :: rest
  | a :: as, rest =>
    first :: writeItems (fun a rest ↦ line (level + 1) ++ item a rest) (a :: as)
      (line level ++ last :: rest)

section Container

variable {line : Nat → List Char} (hline : ∀ level, ∀ c ∈ line level, c = '\n' ∨ c = ' ')
  {level : Nat} {first last : Char} (hlast : last = ']' ∨ last = '\x7d')
include hline hlast

theorem head?_line {c : Char} (h : (line level ++ last :: rest).head? = some c) :
    c.isDigit = false ∧ c ≠ ',' := by
  have hc : c = '\n' ∨ c = ' ' ∨ c = ']' ∨ c = '\x7d' := by
    cases hcs : line level with
    | nil =>
      rw [hcs] at h
      cases h
      exact .inr (.inr hlast)
    | cons d ds =>
      rw [hcs] at h
      cases h
      exact (hline level c (hcs ▸ List.mem_cons_self)).imp_right .inl
  rcases hc with rfl | rfl | rfl | rfl <;> decide

theorem line_append_ne {a : α} (ha : ∀ rest, ∃ c cs, item a rest = c :: cs ∧ c ≠ last)
    (xs ys : List Char) : line (level + 1) ++ item a xs ≠ last :: ys := by
  intro h
  obtain ⟨c, cs, hitem, hc⟩ := ha xs
  cases hcs : line (level + 1) with
  | nil =>
    rw [hcs, hitem] at h
    exact hc (List.cons.inj h).1
  | cons d ds =>
    rw [hcs] at h
    obtain ⟨rfl, -⟩ := List.cons.inj h
    have hd := hline (level + 1) d (hcs ▸ List.mem_cons_self)
    rcases hlast with rfl | rfl <;> rcases hd with hd | hd <;> exact absurd hd (by decide)

/-- What stands between brackets is determined by its text. -/
theorem container_cancel {as bs : List α}
    (hhead : ∀ a, p a → ∀ rest, ∃ c cs, item a rest = c :: cs ∧ c ≠ last)
    (has : ∀ a ∈ as, p a ∧ Cancels item p a) (hbs : ∀ b ∈ bs, p b)
    (h : container line level first last item as rest =
      container line level first last item bs rest') : as = bs ∧ rest = rest' := by
  cases as with
  | nil =>
    cases bs with
    | nil => exact ⟨rfl, (List.cons.inj (List.cons.inj h).2).2⟩
    | cons b bs =>
      obtain ⟨xs, hxs⟩ := writeItems_cons (fun a rest ↦ line (level + 1) ++ item a rest) b bs
        (line level ++ last :: rest')
      have hb := hhead b (hbs b List.mem_cons_self)
      exact absurd (((List.cons.inj h).2.trans hxs).symm) (line_append_ne hline hlast hb _ _)
  | cons a as =>
    cases bs with
    | nil =>
      obtain ⟨xs, hxs⟩ := writeItems_cons (fun a rest ↦ line (level + 1) ++ item a rest) a as
        (line level ++ last :: rest)
      have ha := hhead a (has a List.mem_cons_self).1
      exact absurd (hxs.symm.trans (List.cons.inj h).2) (line_append_ne hline hlast ha _ _)
    | cons b bs =>
      have hends : ∀ rest, Ends (line level ++ last :: rest) :=
        fun rest c hc ↦ (head?_line hline hlast hc).1
      have hcomma : ∀ rest, (line level ++ last :: rest).head? ≠ some ',' :=
        fun rest hc ↦ (head?_line hline hlast hc).2 rfl
      have hitems : ∀ a' ∈ a :: as, Cancels (fun a rest ↦ line (level + 1) ++ item a rest) p a' :=
        fun a' ha' b xs ys hb hxs hys heq ↦
          (has a' ha').2 b xs ys hb hxs hys (List.append_cancel_left heq)
      obtain ⟨hsame, hcancel⟩ := writeItems_cancel hitems hbs (List.cons_ne_nil _ _)
        (List.cons_ne_nil _ _) (hends _) (hends _) (hcomma _) (hcomma _) (List.cons.inj h).2
      exact ⟨hsame, (List.cons.inj (List.append_cancel_left hcancel)).2⟩

end Container

end Items

/-! ## Styles -/

/-- A way of writing JSON texts, by what is left open. -/
structure Style where
  /-- What a line begins with at a level. -/
  line : Nat → List Char
  /-- What stands between a key and its value. -/
  colon : List Char
  /-- Writes a value in front of a text. -/
  write : Nat → Json → List Char → List Char
  /-- A line begins with nothing but a line feed and spaces. -/
  line_blank (level : Nat) : ∀ c ∈ line level, c = '\n' ∨ c = ' '
  write_null (level : Nat) (rest : List Char) :
    write level null rest = 'n' :: 'u' :: 'l' :: 'l' :: rest
  write_true (level : Nat) (rest : List Char) :
    write level (bool true) rest = 't' :: 'r' :: 'u' :: 'e' :: rest
  write_false (level : Nat) (rest : List Char) :
    write level (bool false) rest = 'f' :: 'a' :: 'l' :: 's' :: 'e' :: rest
  write_int (level : Nat) (n : Int) (rest : List Char) :
    write level (int n) rest = intChars n ++ rest
  write_string (level : Nat) (s : String) (rest : List Char) :
    write level (string s) rest = stringChars s ++ rest
  write_array (level : Nat) (es : List Json) (rest : List Char) :
    write level (array es) rest = container line level '[' ']' (write (level + 1)) es rest
  write_object (level : Nat) (ms : List (String × Json)) (rest : List Char) :
    write level (object ms) rest = container line level '\x7b' '\x7d'
      (fun m rest ↦ stringChars m.1 ++ (colon ++ write (level + 1) m.2 rest)) ms rest

theorem writeCompactList_eq : writeCompactList = writeItems writeCompact :=
  eq_writeItems writeCompactList.eq_1 writeCompactList.eq_2
    fun e e' es rest ↦ writeCompactList.eq_3 rest e (e' :: es) (List.cons_ne_nil e' es)

theorem writeCompactMembers_eq : writeCompactMembers =
    writeItems fun m rest ↦ stringChars m.1 ++ ':' :: writeCompact m.2 rest :=
  eq_writeItems writeCompactMembers.eq_1 (fun rest m ↦ writeCompactMembers.eq_2 rest m.1 m.2)
    fun m m' ms rest ↦ writeCompactMembers.eq_3 rest m.1 m.2 (m' :: ms) (List.cons_ne_nil m' ms)

theorem writePrettyList_eq (level : Nat) : writePrettyList level =
    writeItems fun e rest ↦ newLine level ++ writePretty level e rest :=
  eq_writeItems (writePrettyList.eq_1 level) (writePrettyList.eq_2 level)
    fun e e' es rest ↦ writePrettyList.eq_3 level rest e (e' :: es) (List.cons_ne_nil e' es)

theorem writePrettyMembers_eq (level : Nat) : writePrettyMembers level = writeItems fun m rest ↦
    newLine level ++ (stringChars m.1 ++ ':' :: ' ' :: writePretty level m.2 rest) :=
  eq_writeItems (writePrettyMembers.eq_1 level)
    (fun rest m ↦ writePrettyMembers.eq_2 level rest m.1 m.2)
    fun m m' ms rest ↦
      writePrettyMembers.eq_3 level rest m.1 m.2 (m' :: ms) (List.cons_ne_nil m' ms)

namespace Style

def compact : Style where
  line _ := []
  colon := [':']
  write _ := writeCompact
  line_blank _ := List.forall_mem_nil _
  write_null _ _ := writeCompact.eq_1 _
  write_true _ _ := writeCompact.eq_2 _
  write_false _ _ := writeCompact.eq_3 _
  write_int _ _ _ := writeCompact.eq_4 _ _
  write_string _ _ _ := writeCompact.eq_6 _ _
  write_array _ es rest := by
    rw [writeCompact, writeCompactList_eq]
    cases es <;> rfl
  write_object _ ms rest := by
    rw [writeCompact, writeCompactMembers_eq]
    cases ms <;> rfl

def pretty : Style where
  line := newLine
  colon := [':', ' ']
  write := writePretty
  line_blank level c hc := by
    rcases List.mem_cons.1 hc with rfl | hc
    · exact .inl rfl
    · exact .inr (List.eq_of_mem_replicate hc)
  write_null _ _ := by rw [writePretty]
  write_true _ _ := by rw [writePretty]
  write_false _ _ := by rw [writePretty]
  write_int _ _ _ := by rw [writePretty]
  write_string _ _ _ := by rw [writePretty]
  write_array level es rest := by
    cases es with
    | nil => rw [writePretty, container]
    | cons e es => rw [writePretty, writePrettyList_eq, container]; exact List.cons_ne_nil e es
  write_object level ms rest := by
    cases ms with
    | nil => rw [writePretty, container]
    | cons m ms =>
      rw [writePretty, writePrettyMembers_eq, container]
      · rfl
      · exact List.cons_ne_nil m ms

variable {s : Style} {j j' : Json} {level : Nat}

/-! ## Values -/

/-- The first character of a text shows of what kind the value is. -/
theorem exists_head (s : Style) (h : j.FloatFree) (level : Nat) (rest : List Char) :
    ∃ c cs, s.write level j rest = c :: cs ∧ kindOfHead? c = some j.kind := by
  cases h with
  | null => exact ⟨_, _, s.write_null level rest, rfl⟩
  | bool b =>
    cases b with
    | true => exact ⟨_, _, s.write_true level rest, rfl⟩
    | false => exact ⟨_, _, s.write_false level rest, rfl⟩
  | int n =>
    rw [s.write_int, intChars]
    by_cases hn : n < 0
    · rw [if_pos hn]
      exact ⟨_, _, rfl, rfl⟩
    · obtain ⟨c, cs, hcs, hc⟩ := digits_eq_cons n.natAbs
      rw [if_neg hn, hcs]
      exact ⟨_, _, rfl, kindOfHead?_of_isDigit hc⟩
  | string t =>
    rw [s.write_string, stringChars]
    exact ⟨_, _, rfl, rfl⟩
  | array h =>
    next es =>
    rw [s.write_array]
    cases es <;> exact ⟨_, _, rfl, rfl⟩
  | object h =>
    next ms =>
    rw [s.write_object]
    cases ms <;> exact ⟨_, _, rfl, rfl⟩

theorem kind_eq (h : j.FloatFree) (h' : j'.FloatFree)
    (htext : s.write level j rest = s.write level j' rest') : j.kind = j'.kind := by
  obtain ⟨c, cs, hcs, hc⟩ := s.exists_head h level rest
  obtain ⟨c', cs', hcs', hc'⟩ := s.exists_head h' level rest'
  rw [hcs, hcs'] at htext
  rw [(List.cons.inj htext).1, hc', Option.some.injEq] at hc
  exact hc.symm

/-- A member is determined by its text if its value is. -/
theorem member_cancel (s : Style) {m : String × Json} (hm : Cancels (s.write level) FloatFree m.2) :
    Cancels (fun m rest ↦ stringChars m.1 ++ (s.colon ++ s.write level m.2 rest))
      (·.2.FloatFree) m := by
  intro m' rest rest' hm' hrest hrest' htext
  obtain ⟨hkey, hcolon⟩ := stringChars_cancel htext
  obtain ⟨hvalue, hcancel⟩ := hm m'.2 rest rest' hm' hrest hrest' (List.append_cancel_left hcolon)
  exact ⟨Prod.ext hkey hvalue, hcancel⟩

/-- A value is determined by its text, and so is what comes after it. -/
theorem write_cancel (s : Style) (h : j.FloatFree) (level : Nat) :
    Cancels (s.write level) FloatFree j := by
  -- Parts stand one level further in, so the level varies along the induction over the value.
  induction h generalizing level with
  | null =>
    intro j' rest rest' h' hrest hrest' htext
    have hkind := kind_eq .null h' htext
    cases h' <;> cases hkind
    rw [s.write_null, s.write_null] at htext
    simpa using htext
  | bool b =>
    intro j' rest rest' h' hrest hrest' htext
    have hkind := kind_eq (.bool b) h' htext
    cases h' <;> cases hkind
    next b' =>
    cases b <;> cases b' <;> simp [s.write_true, s.write_false] at htext ⊢ <;> exact htext
  | int n =>
    intro j' rest rest' h' hrest hrest' htext
    have hkind := kind_eq (.int n) h' htext
    cases h' <;> cases hkind
    rw [s.write_int, s.write_int] at htext
    obtain ⟨rfl, hcancel⟩ := intChars_cancel hrest hrest' htext
    exact ⟨rfl, hcancel⟩
  | string t =>
    intro j' rest rest' h' hrest hrest' htext
    have hkind := kind_eq (.string t) h' htext
    cases h' <;> cases hkind
    rw [s.write_string, s.write_string] at htext
    obtain ⟨rfl, hcancel⟩ := stringChars_cancel htext
    exact ⟨rfl, hcancel⟩
  | @array es h ih =>
    intro j' rest rest' h' hrest hrest' htext
    have hkind := kind_eq (.array h) h' htext
    cases h' <;> cases hkind
    next es' h' =>
    rw [s.write_array, s.write_array] at htext
    have hhead : ∀ e, FloatFree e → ∀ rest, ∃ c cs,
        s.write (level + 1) e rest = c :: cs ∧ c ≠ ']' := by
      intro e he rest
      obtain ⟨c, cs, hcs, hc⟩ := s.exists_head he (level + 1) rest
      exact ⟨c, cs, hcs, by rintro rfl; cases hc⟩
    obtain ⟨rfl, hcancel⟩ := container_cancel s.line_blank (.inl rfl) hhead
      (fun e he ↦ ⟨h e he, ih e he (level + 1)⟩) h' htext
    exact ⟨rfl, hcancel⟩
  | @object ms h ih =>
    intro j' rest rest' h' hrest hrest' htext
    have hkind := kind_eq (.object h) h' htext
    cases h' <;> cases hkind
    next ms' h' =>
    rw [s.write_object, s.write_object] at htext
    obtain ⟨rfl, hcancel⟩ := container_cancel s.line_blank (.inr rfl)
      (fun m _ rest ↦ ⟨'"', _, rfl, by decide⟩)
      (fun m hm ↦ ⟨h m hm, s.member_cancel (ih m hm (level + 1))⟩) h' htext
    exact ⟨rfl, hcancel⟩

theorem write_injective (s : Style) (level : Nat) (h : j.FloatFree) (h' : j'.FloatFree)
    (htext : s.write level j [] = s.write level j' []) : j = j' :=
  (s.write_cancel h level j' [] [] h' nofun nofun htext).1

end Style

theorem compact_injective {j j' : Json} (h : j.FloatFree) (h' : j'.FloatFree)
    (htext : j.compact = j'.compact) : j = j' :=
  Style.compact.write_injective 0 h h' (String.ofList_injective htext)

theorem pretty_injective {j j' : Json} (h : j.FloatFree) (h' : j'.FloatFree)
    (htext : j.pretty = j'.pretty) : j = j' :=
  Style.pretty.write_injective 0 h h' (String.ofList_injective htext)

end TemplateExpr.Json
