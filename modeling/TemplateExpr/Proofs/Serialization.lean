import TemplateExpr.Expr.Json
import TemplateExpr.Proofs.JsonText
import TemplateExpr.Proofs.Printing

/-!
# JSON texts identify trees

Trees without binary numbers that are equal have one JSON form, and if their numbers are whole and
fit a word, then trees with one JSON text, in either form, are equal (`Expr.json_identifies`).

## Equal trees

Numbers compare by value, so the first part is about taking zeros off the end of a number: that
leaves the same digits of all ways of writing a value (`Decimal.stripZeros_mul_tenPow`).

## Equal texts

For the second part, a text determines its JSON value, the member `type` of an object determines the
kind of the node, and under a kind every part of the node is a member of its own. There the numbers
have to be whole and small, because any other number becomes a binary one near it, and several
numbers may share that.

## Trees side by side

Both parts go along two trees at once. The induction is on the first of them, and the second one is
taken apart once the two are known to be of one kind. In the second part that is read off their JSON
forms (`Expr.kindName_eq_of_toJson_eq`).
-/

namespace TemplateExpr

/-! ## Numbers -/

namespace Decimal

variable {d d' : Decimal}

theorem stripZeros_mul_ten (coeff : Int) (scale : Nat) :
    stripZeros (coeff * 10) (scale + 1) = stripZeros coeff scale := by
  rw [stripZeros, if_pos (Int.mul_tmod_left coeff 10), Int.mul_tdiv_cancel coeff (by decide)]

theorem stripZeros_mul_tenPow (coeff : Int) (scale n : Nat) :
    stripZeros (coeff * tenPow n) (scale + n) = stripZeros coeff scale := by
  induction n with
  | zero => rw [tenPow_zero, Int.natCast_one, Int.mul_one, Nat.add_zero]
  | succ n ih =>
    rw [tenPow_succ, Int.natCast_mul, ← Int.mul_assoc, ← Nat.add_assoc]
    exact (stripZeros_mul_ten _ _).trans ih

theorem beq_iff : (d == d') = true ↔ d.coeff * tenPow d'.scale = d'.coeff * tenPow d.scale :=
  @beq_iff_eq Int _ _ _ _

theorem stripZeros_eq_of_beq (h : (d == d') = true) :
    stripZeros d.coeff d.scale = stripZeros d'.coeff d'.scale := by
  -- The one with more digits after the point is the other one with zeros put at its end.
  have hlonger : ∀ {d d' : Decimal}, d.scale ≤ d'.scale →
      d.coeff * tenPow d'.scale = d'.coeff * tenPow d.scale →
        stripZeros d'.coeff d'.scale = stripZeros d.coeff d.scale := by
    intro d d' hle heq
    obtain ⟨n, hn⟩ := Nat.exists_eq_add_of_le hle
    rw [hn, Nat.add_comm, tenPow_add, Int.natCast_mul, ← Int.mul_assoc] at heq
    have hpos : (tenPow d.scale : Int) ≠ 0 := Int.natCast_ne_zero.2 (tenPow_pos _).ne'
    rw [← Int.eq_of_mul_eq_mul_right hpos heq, hn, stripZeros_mul_tenPow]
  rcases Nat.le_total d.scale d'.scale with hle | hle
  · exact (hlonger hle (beq_iff.1 h)).symm
  · exact hlonger hle (beq_iff.1 h).symm

/-- The JSON form of a number depends on its value alone. -/
theorem toJson_eq_of_beq (h : (d == d') = true) : d.toJson = d'.toJson := by
  have hstrip : d.normalize = d'.normalize := by
    unfold normalize
    simp only [stripZeros_eq_of_beq h]
  rw [toJson, toJson, hstrip]

/-! ## Whole numbers -/

/-- The value of a number is a given whole number. -/
def IsWhole (d : Decimal) (n : Int) : Prop := d.coeff = n * tenPow d.scale

/-- The value of a number is whole and fits 64 bits with a sign. -/
def IsWord (d : Decimal) : Prop := ∃ n : Int, d.IsWhole n ∧ fitsWord n = true

theorem IsWhole.toJson {n : Int} (h : d.IsWhole n) (hn : fitsWord n = true) :
    d.toJson = .int n := by
  have hstrip : stripZeros d.coeff d.scale = (n, 0) := by
    have hzeros := stripZeros_mul_tenPow n 0 d.scale
    rw [Nat.zero_add] at hzeros
    rw [h, hzeros, stripZeros]
  have hcoeff : d.normalize.coeff = n := congrArg Prod.fst hstrip
  have hscale : d.normalize.scale = 0 := congrArg Prod.snd hstrip
  rw [Decimal.toJson, if_pos ⟨hscale, by rwa [hcoeff]⟩, hcoeff]

theorem IsWhole.beq {n : Int} (h : d.IsWhole n) (h' : d'.IsWhole n) : (d == d') = true :=
  beq_iff.2 (by rw [h, h', Int.mul_right_comm])

end Decimal

/-! ## Operators -/

theorem UnaryOp.spelling_injective {op op' : UnaryOp} (h : op.spelling = op'.spelling) :
    op = op' := by
  rw [← Option.some.injEq, ← ofSpelling?_spelling, h, ofSpelling?_spelling]

theorem BinaryOp.spelling_injective {op op' : BinaryOp} (h : op.spelling = op'.spelling) :
    op = op' := by
  have hspelling : ∀ op : BinaryOp, ofSpelling? op.spelling = some op := by rintro (_ | _) <;> rfl
  rw [← Option.some.injEq, ← hspelling, h, hspelling]

def Json.member? (key : String) : Json → Option Json
  | object ms => ms.lookup key
  | _ => none

/-! ## Literals -/

namespace Literal

variable {v v' : Literal}

/-- A literal is no binary number. -/
def IsExact : Literal → Prop
  | float _ => False
  | _ => True

/-- A literal is no decimal number but a whole one that fits 64 bits with a sign. -/
def IsWord : Literal → Prop
  | number d => d.IsWord
  | _ => True

theorem toJson_eq_of_beq (hv : v.IsExact) (h : (v == v') = true) : v.toJson = v'.toJson := by
  cases v with
  | number d =>
    cases v' with
    | number d' => exact Decimal.toJson_eq_of_beq h
    | _ => exact absurd h Bool.false_ne_true
  | float => exact hv.elim
  | string s =>
    cases v' with
    | string s' => exact congrArg Json.string (eq_of_beq h)
    | _ => exact absurd h Bool.false_ne_true
  | boolean b =>
    cases v' with
    | boolean b' => exact congrArg Json.bool (eq_of_beq h)
    | _ => exact absurd h Bool.false_ne_true
  | null =>
    cases v' with
    | null => rfl
    | _ => exact absurd h Bool.false_ne_true

theorem floatFree_toJson (hv : v.IsExact) (hword : v.IsWord) : v.toJson.FloatFree := by
  cases v with
  | number d =>
    obtain ⟨n, hd, hn⟩ := hword
    rw [toJson, hd.toJson hn]
    exact .int n
  | float => exact hv.elim
  | string s => exact .string s
  | boolean b => exact .bool b
  | null => exact .null

theorem number_beq_of_toJson_eq {d : Decimal} (hd : d.IsWord) (hv : v.IsExact) (hword : v.IsWord)
    (h : (number d).toJson = v.toJson) : (number d == v) = true := by
  obtain ⟨n, hdn, hn⟩ := hd
  have hint : (number d).toJson = .int n := hdn.toJson hn
  rw [hint] at h
  cases v with
  | number d' =>
    obtain ⟨n', hdn', hn'⟩ := hword
    have hint' : (number d').toJson = .int n' := hdn'.toJson hn'
    rw [hint', Json.int.injEq] at h
    exact hdn.beq (h ▸ hdn')
  | float => exact hv.elim
  | _ => cases h

/-- Literals are equal if their JSON forms are. -/
theorem beq_of_toJson_eq (hv : v.IsExact) (hv' : v'.IsExact) (hword : v.IsWord)
    (hword' : v'.IsWord) (h : v.toJson = v'.toJson) : (v == v') = true := by
  have hnumber : ∀ d, v' = number d → (v' == v) = true := by
    rintro d rfl
    exact number_beq_of_toJson_eq hword' hv hword h.symm
  cases v with
  | number d => exact number_beq_of_toJson_eq hword hv' hword' h
  | float => exact hv.elim
  | string s =>
    cases v' with
    | number d => exact absurd (hnumber d rfl) Bool.false_ne_true
    | float => exact hv'.elim
    | string s' => exact (@beq_iff_eq String _ _ s s').2 (Json.string.inj h)
    | _ => cases h
  | boolean b =>
    cases v' with
    | number d => exact absurd (hnumber d rfl) Bool.false_ne_true
    | float => exact hv'.elim
    | boolean b' => exact (@beq_iff_eq Bool _ _ b b').2 (Json.bool.inj h)
    | _ => cases h
  | null =>
    cases v' with
    | number d => exact absurd (hnumber d rfl) Bool.false_ne_true
    | float => exact hv'.elim
    | null => rfl
    | _ => cases h

end Literal

/-! ## Trees -/

namespace Expr

/-- Every literal of a tree has a property. -/
def Literals (p : Literal → Prop) : Expr → Prop :=
  All fun
    | literal v => p v
    | _ => True

section Trees

variable {p q : Literal → Prop} {e e' : Expr} {es es' : List Expr}

theorem Literals.and (hp : e.Literals p) (hq : e.Literals q) :
    e.Literals fun v ↦ p v ∧ q v := by
  induction hp with
  | @intro e node _ ih =>
    refine .intro ?_ fun a ha ↦ ih a ha (hq.child ha)
    cases e with
    | literal v => exact ⟨node, hq.node⟩
    | _ => trivial

theorem toJsonList_eq_of_beqList
    (h : ∀ e ∈ es, ∀ e' ∈ es', (e == e') = true → e.toJson = e'.toJson)
    (hbeq : beqList es es' = true) : toJsonList es = toJsonList es' := by
  induction es generalizing es' with
  | nil =>
    cases es' with
    | nil => rfl
    | cons => exact absurd hbeq Bool.false_ne_true
  | cons e es ih =>
    cases es' with
    | nil => exact absurd hbeq Bool.false_ne_true
    | cons e' es' =>
      obtain ⟨hhead, htail⟩ := Bool.and_eq_true_iff.1 hbeq
      rw [toJsonList, toJsonList, h e List.mem_cons_self e' List.mem_cons_self hhead,
        ih (fun e he e' he' ↦ h e (.tail _ he) e' (.tail _ he')) htail]

theorem beqList_of_toJsonList_eq
    (h : ∀ e ∈ es, ∀ e' ∈ es', e.toJson = e'.toJson → (e == e') = true)
    (heq : toJsonList es = toJsonList es') : beqList es es' = true := by
  induction es generalizing es' with
  | nil =>
    cases es' with
    | nil => rfl
    | cons => cases heq
  | cons e es ih =>
    cases es' with
    | nil => cases heq
    | cons e' es' =>
      obtain ⟨hhead, htail⟩ := List.cons.inj heq
      exact Bool.and_eq_true_iff.2 ⟨h e List.mem_cons_self e' List.mem_cons_self hhead,
        ih (fun e he e' he' ↦ h e (.tail _ he) e' (.tail _ he')) htail⟩

/-- Trees without binary numbers that are equal have one JSON form. -/
theorem toJson_eq_of_beq (he : e.Literals Literal.IsExact) (h : (e == e') = true) :
    e.toJson = e'.toJson := by
  induction he generalizing e' with
  | @intro e hnode _ ih =>
  cases e with
  | literal v =>
    cases e' with
    | literal v' =>
      rw [toJson, toJson, Literal.toJson_eq_of_beq hnode h]
      rfl
    | _ => exact absurd h Bool.false_ne_true
  | name n =>
    cases e' with
    | name n' => rw [eq_of_beq (show (n == n') = true from h)]
    | _ => exact absurd h Bool.false_ne_true
  | unary op a =>
    cases e' with
    | unary op' a' =>
      obtain ⟨hop, ha⟩ := Bool.and_eq_true_iff.1 h
      rw [toJson, toJson, eq_of_beq hop, ih a List.mem_cons_self ha]
      rfl
    | _ => exact absurd h Bool.false_ne_true
  | binary op l r =>
    cases e' with
    | binary op' l' r' =>
      obtain ⟨h, hr⟩ := Bool.and_eq_true_iff.1 h
      obtain ⟨hop, hl⟩ := Bool.and_eq_true_iff.1 h
      rw [toJson, toJson, eq_of_beq hop, ih l (.head _) hl, ih r (.tail _ (.head _)) hr]
      rfl
    | _ => exact absurd h Bool.false_ne_true
  | ternary c t f =>
    cases e' with
    | ternary c' t' f' =>
      obtain ⟨h, hf⟩ := Bool.and_eq_true_iff.1 h
      obtain ⟨hc, ht⟩ := Bool.and_eq_true_iff.1 h
      rw [toJson, toJson, ih c (.head _) hc, ih t (.tail _ (.head _)) ht,
        ih f (.tail _ (.tail _ (.head _))) hf]
      rfl
    | _ => exact absurd h Bool.false_ne_true
  | array es =>
    cases e' with
    | array es' =>
      rw [toJson, toJson, @toJsonList_eq_of_beqList es es' (fun e he e' _ ↦ ih e he) h]
      rfl
    | _ => exact absurd h Bool.false_ne_true
  | comma es =>
    cases e' with
    | comma es' =>
      rw [toJson, toJson, @toJsonList_eq_of_beqList es es' (fun e he e' _ ↦ ih e he) h]
      rfl
    | _ => exact absurd h Bool.false_ne_true
  | call f es =>
    cases e' with
    | call f' es' =>
      obtain ⟨hf, hes⟩ := Bool.and_eq_true_iff.1 h
      rw [toJson, toJson, ih f (.head _) hf,
        toJsonList_eq_of_beqList (fun e he e' _ ↦ ih e (.tail _ he)) hes]
      rfl
    | _ => exact absurd h Bool.false_ne_true
  | filter n es =>
    cases e' with
    | filter n' es' =>
      obtain ⟨hn, hes⟩ := Bool.and_eq_true_iff.1 h
      rw [toJson, toJson, eq_of_beq hn,
        @toJsonList_eq_of_beqList es es' (fun e he e' _ ↦ ih e he) hes]
      rfl
    | _ => exact absurd h Bool.false_ne_true

/-! ## Trees without binary numbers -/

theorem floatFree_toJsonList (h : ∀ e ∈ es, e.toJson.FloatFree) :
    (Json.array (toJsonList es)).FloatFree := by
  refine .array ?_
  induction es with
  | nil => exact List.forall_mem_nil _
  | cons e es ih =>
    rw [toJsonList, List.forall_mem_cons]
    exact ⟨h e List.mem_cons_self, ih fun e he ↦ h e (.tail _ he)⟩

/-- The JSON form of a tree whose numbers all fit a word has no binary number in it. -/
theorem floatFree_toJson (he : e.Literals fun v ↦ v.IsExact ∧ v.IsWord) : e.toJson.FloatFree := by
  induction he with
  | @intro e hnode _ ih =>
  cases e with
  | literal v =>
    rw [toJson]
    exact .object_cons (.string _) (.object_cons (v.floatFree_toJson hnode.1 hnode.2) .object_nil)
  | name n =>
    rw [toJson]
    exact .object_cons (.string n) (.object_cons (.string _) .object_nil)
  | unary op a =>
    rw [toJson]
    exact .object_cons (ih a (.head _)) (.object_cons (.string _)
      (.object_cons (.string _) .object_nil))
  | binary op l r =>
    rw [toJson]
    exact .object_cons (ih l (.head _)) (.object_cons (.string _)
      (.object_cons (ih r (.tail _ (.head _))) (.object_cons (.string _) .object_nil)))
  | ternary c t f =>
    rw [toJson]
    exact .object_cons (ih c (.head _)) (.object_cons (ih f (.tail _ (.tail _ (.head _))))
      (.object_cons (ih t (.tail _ (.head _))) (.object_cons (.string _) .object_nil)))
  | array es | comma es =>
    rw [toJson]
    exact .object_cons (floatFree_toJsonList ih) (.object_cons (.string _) .object_nil)
  | call f es =>
    rw [toJson]
    exact .object_cons (floatFree_toJsonList fun e he ↦ ih e (.tail _ he))
      (.object_cons (ih f (.head _)) (.object_cons (.string _) .object_nil))
  | filter n es =>
    rw [toJson]
    exact .object_cons (floatFree_toJsonList ih)
      (.object_cons (.string n) (.object_cons (.string _) .object_nil))

theorem kindName_eq_of_toJson_eq (h : e.toJson = e'.toJson) : e.kindName = e'.kindName := by
  have htype : ∀ e : Expr, e.toJson.member? "type" = some (.string e.kindName) := by
    rintro (_ | _ | _ | _ | _ | _ | _ | _ | _) <;> rfl
  have hkind := congrArg (Json.member? "type") h
  rw [htype, htype] at hkind
  exact Json.string.inj (Option.some.inj hkind)

/-- Trees whose numbers all fit a word are equal if their JSON forms are. -/
theorem beq_of_toJson_eq (he : e.Literals fun v ↦ v.IsExact ∧ v.IsWord)
    (he' : e'.Literals fun v ↦ v.IsExact ∧ v.IsWord) (h : e.toJson = e'.toJson) :
    (e == e') = true := by
  induction he generalizing e' with
  | @intro e hnode _ ih =>
  have hkind := kindName_eq_of_toJson_eq h
  have hmember : ∀ (key : String) {j j' : Json}, e.toJson.member? key = some j →
      e'.toJson.member? key = some j' → j = j' := by
    intro key j j' hj hj'
    rw [h, hj', Option.some.injEq] at hj
    exact hj.symm
  have hchild : ∀ a ∈ e.children, ∀ a' ∈ e'.children, a.toJson = a'.toJson → (a == a') = true :=
    fun a ha a' ha' ↦ ih a ha (he'.child ha')
  cases e with
  | literal v =>
    cases e' with
    | literal v' =>
      have hnode' := he'.node
      exact v.beq_of_toJson_eq hnode.1 hnode'.1 hnode.2 hnode'.2 (hmember "value" rfl rfl)
    | _ => simp [kindName] at hkind
  | name n =>
    cases e' with
    | name n' => exact (@beq_iff_eq String _ _ n n').2 (Json.string.inj (hmember "name" rfl rfl))
    | _ => simp [kindName] at hkind
  | unary op a =>
    cases e' with
    | unary op' a' =>
      have hop := UnaryOp.spelling_injective (Json.string.inj (hmember "operator" rfl rfl))
      have ha := hchild a (.head _) a' (.head _) (hmember "operand" rfl rfl)
      exact Bool.and_eq_true_iff.2 ⟨beq_iff_eq.2 hop, ha⟩
    | _ => simp [kindName] at hkind
  | binary op l r =>
    cases e' with
    | binary op' l' r' =>
      have hop := BinaryOp.spelling_injective (Json.string.inj (hmember "operator" rfl rfl))
      have hl := hchild l (.head _) l' (.head _) (hmember "left" rfl rfl)
      have hr := hchild r (.tail _ (.head _)) r' (.tail _ (.head _)) (hmember "right" rfl rfl)
      have hleft := Bool.and_eq_true_iff.2 ⟨beq_iff_eq.2 hop, hl⟩
      exact Bool.and_eq_true_iff.2 ⟨hleft, hr⟩
    | _ => simp [kindName] at hkind
  | ternary c t f =>
    cases e' with
    | ternary c' t' f' =>
      have hc := hchild c (.head _) c' (.head _) (hmember "condition" rfl rfl)
      have ht := hchild t (.tail _ (.head _)) t' (.tail _ (.head _)) (hmember "then" rfl rfl)
      have hf := hchild f (.tail _ (.tail _ (.head _))) f' (.tail _ (.tail _ (.head _)))
        (hmember "else" rfl rfl)
      exact Bool.and_eq_true_iff.2 ⟨Bool.and_eq_true_iff.2 ⟨hc, ht⟩, hf⟩
    | _ => simp [kindName] at hkind
  | array es =>
    cases e' with
    | array es' =>
      exact beqList_of_toJsonList_eq hchild (Json.array.inj (hmember "elements" rfl rfl))
    | _ => simp [kindName] at hkind
  | comma es =>
    cases e' with
    | comma es' =>
      exact beqList_of_toJsonList_eq hchild (Json.array.inj (hmember "elements" rfl rfl))
    | _ => simp [kindName] at hkind
  | call f es =>
    cases e' with
    | call f' es' =>
      have hf := hchild f (.head _) f' (.head _) (hmember "callee" rfl rfl)
      have hes := beqList_of_toJsonList_eq
        (fun e he e' he' ↦ hchild e (.tail _ he) e' (.tail _ he'))
        (Json.array.inj (hmember "arguments" rfl rfl))
      exact Bool.and_eq_true_iff.2 ⟨hf, hes⟩
    | _ => simp [kindName] at hkind
  | filter n es =>
    cases e' with
    | filter n' es' =>
      have hn : n = n' := Json.string.inj (hmember "name" rfl rfl)
      have hes := beqList_of_toJsonList_eq hchild (Json.array.inj (hmember "arguments" rfl rfl))
      exact Bool.and_eq_true_iff.2 ⟨beq_iff_eq.2 hn, hes⟩
    | _ => simp [kindName] at hkind

end Trees

/-! ## Texts -/

/-- Trees without binary numbers that are equal have the same JSON texts, and if moreover all their
numbers are whole and fit 64 bits with a sign, then trees with the same JSON text, in either of its
forms, are equal. -/
theorem json_identifies {a b : Expr} (ha : a.Literals Literal.IsExact)
    (hb : b.Literals Literal.IsExact) :
    ((a == b) = true →
      a.toJson.compact = b.toJson.compact ∧ a.toJson.pretty = b.toJson.pretty) ∧
    (a.Literals Literal.IsWord → b.Literals Literal.IsWord →
      a.toJson.compact = b.toJson.compact ∨ a.toJson.pretty = b.toJson.pretty →
        (a == b) = true) := by
  refine ⟨fun h ↦ ?_, fun hwa hwb h ↦ ?_⟩
  · rw [toJson_eq_of_beq ha h]
    exact ⟨rfl, rfl⟩
  · have hfa := floatFree_toJson (ha.and hwa)
    have hfb := floatFree_toJson (hb.and hwb)
    have heq : a.toJson = b.toJson :=
      h.elim (Json.compact_injective hfa hfb) (Json.pretty_injective hfa hfb)
    exact beq_of_toJson_eq (ha.and hwa) (hb.and hwb) heq

theorem json_identifies_of_pairs :
    let pair (d : Decimal) := array [literal (.number d), name "x"]
    let one : Decimal := ⟨1, 0, by decide, by decide⟩
    let one' : Decimal := ⟨10, 1, by decide, by decide⟩
    let two : Decimal := ⟨2, 0, by decide, by decide⟩
    (pair one').toJson.compact = (pair one).toJson.compact ∧
      (pair one').toJson.pretty = (pair one).toJson.pretty ∧
      (pair two).toJson.compact ≠ (pair one).toJson.compact ∧
      (pair two).toJson.pretty ≠ (pair one).toJson.pretty := by
  intro pair one one' two
  have hexact : ∀ d, (pair d).Literals Literal.IsExact := fun d ↦ by
    simp [pair, Literals, Literal.IsExact]
  have hword : ∀ d : Decimal, d.scale = 0 → fitsWord d.coeff = true →
      (pair d).Literals Literal.IsWord := by
    intro d hscale hfits
    have hwhole : d.IsWhole d.coeff := by
      rw [Decimal.IsWhole, hscale, tenPow_zero, Int.natCast_one, Int.mul_one]
    have hd : d.IsWord := ⟨d.coeff, hwhole, hfits⟩
    simpa [pair, Literals, Literal.IsWord] using hd
  obtain ⟨hcompact, hpretty⟩ := (json_identifies (hexact one') (hexact one)).1 (by decide)
  have htwo := (json_identifies (hexact two) (hexact one)).2 (hword two rfl rfl) (hword one rfl rfl)
  exact ⟨hcompact, hpretty, fun h ↦ absurd (htwo (.inl h)) (by decide),
    fun h ↦ absurd (htwo (.inr h)) (by decide)⟩

end Expr

end TemplateExpr
