import TemplateExpr.Proofs.Origin

/-!
# The form of trees that come from texts

An expression that has been read keeps to a form that those who walk over it can count on
(`Expr.normal_of_text`). It holds of every node, wherever the node stands in the tree.

## Where the parts of the form come from

A number begins with a digit, so no sign can make it negative, and a binary number is taken for a
literal only if it is finite. A word that is a literal never becomes a name, a name never stays the
function of a call, and a filter is made around what is piped into it. No production makes a list
with commas.

## Numbers

All that is asked of a number is a digit at its beginning, which is how lexemes of the kind begin.
Each way of reading a number looks for a sign there, and none finds one. That the number is a lexeme
is not used: the readers are asked about any text that begins so.
-/

namespace TemplateExpr

open Text

/-! ## Numbers that begin with a digit -/

theorem Text.Numeral.negative_ofChars? {cs : List Char} {n : Numeral}
    (h : cs.head?.any Char.isDigit = true) (hn : ofChars? cs = some n) : n.negative = false := by
  simp only [ofChars?, splitSign_of_isDigit h] at hn
  split at hn
  · cases hn
    rfl
  · cases hn

namespace Decimal

variable {cs : List Char} {d d' : Decimal}

theorem nonneg_of_ofPlain? (h : cs.head?.any Char.isDigit = true) (hd : ofPlain? cs = some d) :
    0 ≤ d.coeff := by
  rw [ofPlain?, Numeral.splitSign_of_isDigit h] at hd
  obtain ⟨⟨coeff, scale⟩, -, hmake⟩ := Option.bind_eq_some_iff.1 hd
  rw [(make?_eq_some_iff.1 hmake).1]
  exact Int.natCast_nonneg coeff

theorem nonneg_of_scaleUp? {n : Nat} (h : 0 ≤ d.coeff) (hd : d.scaleUp? n = some d') :
    0 ≤ d'.coeff := by
  unfold scaleUp? at hd
  split at hd
  · rwa [(make?_eq_some_iff.1 hd).1]
  · split at hd
    · rw [(make?_eq_some_iff.1 hd).1]
      exact Int.mul_nonneg h (Int.natCast_nonneg _)
    · cases hd

theorem nonneg_of_scaleDown? {n : Nat} (h : 0 ≤ d.coeff) (hd : d.scaleDown? n = some d') :
    0 ≤ d'.coeff := by
  rwa [(make?_eq_some_iff.1 hd).1]

theorem isDigit_head_base (h : cs.head?.any Char.isDigit = true) :
    (cs.takeWhile (!isExponentMark ·)).head?.any Char.isDigit = true := by
  cases cs with
  | nil => exact h
  | cons c cs =>
    have hc : c.isDigit = true := h
    simp only [List.takeWhile_cons, isExponentMark_of_isDigit hc]
    exact hc

theorem nonneg_of_ofChars? (h : cs.head?.any Char.isDigit = true) (hd : ofChars? cs = some d) :
    0 ≤ d.coeff := by
  rw [ofChars?] at hd
  split at hd
  · rw [ofScientific?] at hd
    split at hd
    · obtain ⟨base, hbase, hd⟩ := Option.bind_eq_some_iff.1 hd
      obtain ⟨n, -, hd⟩ := Option.bind_eq_some_iff.1 hd
      exact nonneg_of_scaleDown? (nonneg_of_ofPlain? (isDigit_head_base h) hbase) hd
    · obtain ⟨base, hbase, hd⟩ := Option.bind_eq_some_iff.1 hd
      obtain ⟨n, -, hd⟩ := Option.bind_eq_some_iff.1 hd
      exact nonneg_of_scaleUp? (nonneg_of_ofPlain? (isDigit_head_base h) hbase) hd
    · cases hd
  · exact nonneg_of_ofPlain? h hd

end Decimal

namespace Binary64

/-! ## Binary numbers -/

/-- A number is finite and has no minus sign. -/
def NonNegative (x : Binary64) : Prop := ∃ units h, x = finite false units h

theorem nonNegative_ofRatio {num den : Nat} (h : (ofRatio false num den).isFinite = true) :
    (ofRatio false num den).NonNegative := by
  unfold ofRatio at h ⊢
  split at h
  · next hlt =>
    rw [dif_pos hlt]
    exact ⟨_, _, rfl⟩
  · cases h

theorem nonNegative_ofNumeral {n : Text.Numeral} (hn : n.negative = false)
    (h : (ofNumeral n).isFinite = true) : (ofNumeral n).NonNegative := by
  unfold ofNumeral at h ⊢
  rw [hn] at h ⊢
  split_ifs at h ⊢
  · exact nonNegative_ofRatio h
  · cases h
  · exact nonNegative_ofRatio h
  · exact nonNegative_ofRatio h

theorem isFinite_of_ofWord? {cs : List Char} {x : Binary64} (h : ofWord? cs = some x) :
    x.isFinite = false := by
  obtain ⟨negative, ds⟩ := Numeral.splitSign cs
  simp only [ofWord?] at h
  split_ifs at h <;> cases h <;> rfl

/-- A binary number whose text begins with a digit is not negative, if it is finite. -/
theorem nonNegative_of_ofChars? {cs : List Char} {x : Binary64}
    (h : cs.head?.any Char.isDigit = true) (hx : ofChars? cs = some x)
    (hfinite : x.isFinite = true) : x.NonNegative := by
  rw [ofChars?] at hx
  split at hx
  · next n hn =>
    cases hx
    exact nonNegative_ofNumeral (Numeral.negative_ofChars? h hn) hfinite
  · rw [isFinite_of_ofWord? hx] at hfinite
    cases hfinite

end Binary64

/-! ## Literals -/

/-- A number is not negative, and it is finite if it is a binary one. -/
def Literal.NonNegative : Literal → Prop
  | number d => 0 ≤ d.coeff
  | float x => x.NonNegative
  | _ => True

theorem Literal.nonNegative_of_ofNumber? {cs : List Char} {v : Literal}
    (h : cs.head?.any Char.isDigit = true) (hv : ofNumber? cs = some v) : v.NonNegative := by
  rw [ofNumber?] at hv
  split at hv
  · next d hd =>
    cases hv
    exact Decimal.nonneg_of_ofChars? h hd
  · obtain ⟨x, hx, rfl⟩ := Option.map_eq_some_iff.1 hv
    obtain ⟨hx, hfinite⟩ := Option.filter_eq_some_iff.1 hx
    exact Binary64.nonNegative_of_ofChars? h hx hfinite

namespace Expr

/-! ## Nodes -/

/-- A node has the form that reading gives it: numbers are finite and not negative, names are
spelled like names and unlike the literals `true`, `false` and `null`, no name is the function of a
call, a filter has an argument, and there is no list with commas. -/
def Normal : Expr → Prop
  | literal v => v.NonNegative
  | name n => isName n.toList = true ∧ n ∉ ["true", "false", "null"]
  | comma _ => False
  | call f _ => ∀ n, f ≠ name n
  | filter _ es => es ≠ []
  | _ => True

theorem normal_word {s : String} (h : isName s.toList = true) : (Grammar.word s).Normal := by
  rw [Grammar.word, Literal.ofKeyword?.eq_def]
  split
  · next heq =>
    split at heq <;> cases heq <;> trivial
  · next heq =>
    refine ⟨h, ?_⟩
    split at heq <;> simp_all

theorem normal_ofReading : OfReading Normal where
  word := normal_word
  number h hv := Literal.nonNegative_of_ofNumber? h hv
  string _ := trivial
  unary _ _ := trivial
  binary _ _ _ := trivial
  ternary _ _ _ := trivial
  array _ := trivial
  call hf _ := hf
  filter _ _ _ := List.cons_ne_nil _ _

/-- Every node of an expression that has been read has its form, and so has every node of the
expressions of a list that has been read, of which there is at least one. -/
theorem normal_of_text (s : String) :
    (∀ e, ofString s = .ok e → e.All Normal) ∧
      ∀ es, listOfString s = .ok es → es ≠ [] ∧ ∀ e ∈ es, e.All Normal := by
  constructor
  · intro e h
    obtain ⟨ts, d, hlexes, -, hder⟩ := derives_of_ofString h
    exact normal_ofReading.all_of_derives hder hlexes.lexical
  · intro es h
    obtain ⟨ts, us, e, es', rfl, hlexes, ⟨d, hhead⟩, d', hrest⟩ := derives_of_listOfString h
    refine ⟨List.cons_ne_nil e es', List.forall_mem_cons.2 ⟨?_, ?_⟩⟩
    · exact normal_ofReading.all_of_derives hhead hlexes.lexical
    · exact normal_ofReading.all_of_derives hrest fun t ht ↦
        hlexes.lexical t (hhead.rest_suffix.subset ht)

theorem normal_of_filtered_call :
    let s := "f(-x, 1e-30)|first"
    (∃ e, ofString s = .ok e ∧ e.All Normal) ∧
      ∃ es, listOfString s = .ok es ∧ es ≠ [] ∧ ∀ e ∈ es, e.All Normal := by
  intro s
  have hread : (ofString s).isOk = true := by decide +kernel
  have hlist : (listOfString s).isOk = true := by decide +kernel
  match he : ofString s, hes : listOfString s with
  | .ok e, .ok es =>
    exact ⟨⟨e, rfl, (normal_of_text s).1 e he⟩, es, rfl, (normal_of_text s).2 es hes⟩
  | .error _, _ =>
    rw [he] at hread
    cases hread
  | _, .error _ =>
    rw [hes] at hlist
    cases hlist

end Expr

end TemplateExpr
