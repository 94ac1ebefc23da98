import TemplateExpr.Literal
import TemplateExpr.Text.Basic
import TemplateExpr.Token

/-!
# Lexemes

How the next piece is cut off a text that does not begin with a blank. The first character decides
what it is: a quote begins a string, a letter or an underscore a name, a digit a number, and
anything else has to be a symbol, of which the longest is taken. Nothing here knows about places;
what is returned instead are the characters that a place has to be moved over.

Main statement: `chars_cut`, that a cut loses nothing of its text.
-/

namespace TemplateExpr

/-- What can be wrong with a text at a certain place. -/
inductive LexFault where
  /-- A character begins no token. -/
  | unexpectedCharacter (c : Char)
  /-- The text ends inside a string. -/
  | unterminatedString
  /-- A character has no meaning after a backslash. -/
  | invalidEscape (c : Char)
  /-- A number is too large. -/
  | invalidNumber (text : String)
deriving DecidableEq

namespace Lexeme

/-- The outcome of cutting a piece off a text. -/
inductive Cut where
  /-- A token, the characters that spell it and those after it. -/
  | token (kind : TokenKind) (text spelling rest : List Char)
  /-- A fault, the characters before its place, those that are passed over all the same and those
  after them. -/
  | fault (fault : LexFault) (before passed rest : List Char)

/-! ## Strings -/

/-- The character that is meant by another one after a backslash. -/
def unescape? : Char → Option Char
  | 'n' => some '\n'
  | 't' => some '\t'
  | 'r' => some '\r'
  | '"' => some '"'
  | '\'' => some '\''
  | '\\' => some '\\'
  | _ => none

/-- The outcome of reading a string after its opening quote. -/
inductive Body where
  /-- The string, its spelling with the closing quote, and what comes after it. -/
  | closed (text spelling rest : List Char)
  /-- A bad escape: the character after the backslash, what stands before the backslash and what
  comes after it. -/
  | badEscape (c : Char) (before rest : List Char)
  /-- The text ends first. -/
  | unclosed

/-- Puts a character of the string and its spelling in front. -/
def Body.prepend (c : Char) (spelled : List Char) : Body → Body
  | closed text spelling rest => closed (c :: text) (spelled ++ spelling) rest
  | badEscape e before rest => badEscape e (spelled ++ before) rest
  | unclosed => unclosed

/-- Reads a string up to its closing quote. -/
def readBody (quote : Char) : List Char → Body
  | [] => .unclosed
  | c :: cs =>
    if c = quote then .closed [] [c] cs
    else if c = '\\' then
      match cs with
      | [] => .unclosed
      | e :: cs =>
        match unescape? e with
        | some d => (readBody quote cs).prepend d [c, e]
        | none => .badEscape e [] (e :: cs)
    else (readBody quote cs).prepend c [c]

/-! ## Numbers -/

/-- Takes a point and digits off the front of a text, if there are any after the point. -/
def splitFraction : List Char → List Char × List Char
  | '.' :: cs =>
    let ds := cs.takeWhile Char.isDigit
    if ds.isEmpty then ([], '.' :: cs) else ('.' :: ds, cs.dropWhile Char.isDigit)
  | cs => ([], cs)

def splitSign : List Char → List Char × List Char
  | '+' :: cs => (['+'], cs)
  | '-' :: cs => (['-'], cs)
  | cs => ([], cs)

/-- Takes an exponent off the front of a text, if it is one with a digit. -/
def splitExponent : List Char → List Char × List Char
  | [] => ([], [])
  | c :: cs =>
    let (sign, rest) := splitSign cs
    let ds := rest.takeWhile Char.isDigit
    if (c = 'e' ∨ c = 'E') ∧ ¬ ds.isEmpty then (c :: (sign ++ ds), rest.dropWhile Char.isDigit)
    else ([], c :: cs)

/-- Takes the longest number off the front of a text: digits, and after them a fraction and an
exponent if they are complete. -/
def splitNumber (cs : List Char) : List Char × List Char :=
  let (fraction, rest) := splitFraction (cs.dropWhile Char.isDigit)
  let (exponent, rest) := splitExponent rest
  (cs.takeWhile Char.isDigit ++ fraction ++ exponent, rest)

/-! ## Symbols -/

/-- The symbols; a symbol that begins another one comes after it. -/
def symbols : List String :=
  ["===", "!==", "==", "!=", ">=", "<=", "&&", "||", "+", "-", "*", "/", "%", "!", "~", "<", ">",
   "(", ")", "[", "]", ",", "?", ":", "|"]

/-- The first symbol of the list with which a text begins. -/
def symbol? (cs : List Char) : Option String :=
  symbols.find? (·.toList.isPrefixOf cs)

/-! ## Pieces -/

/-- Cuts the first piece off a text that does not begin with a blank. -/
def cut : List Char → Cut
  | [] => .token .eof [] [] []
  | c :: cs =>
    if c = '"' ∨ c = '\'' then
      match readBody c cs with
      | .closed text spelling rest => .token .string text (c :: spelling) rest
      | .badEscape e before rest =>
        .fault (.invalidEscape e) (c :: before) (c :: (before ++ ['\\'])) rest
      | .unclosed => .fault .unterminatedString [] (c :: cs) []
    else if Text.isNameStart c then
      let name := (c :: cs).takeWhile Text.isNameChar
      .token .identifier name name ((c :: cs).dropWhile Text.isNameChar)
    else if c.isDigit then
      let (number, rest) := splitNumber (c :: cs)
      if (Literal.ofNumber? number).isSome then .token .number number number rest
      else .fault (.invalidNumber (String.ofList number)) [] [] (c :: cs)
    else
      match symbol? (c :: cs) with
      | some s => .token .symbol s.toList s.toList ((c :: cs).drop s.toList.length)
      | none => .fault (.unexpectedCharacter c) [] [] (c :: cs)

/-! ## Nothing is lost -/

/-- The characters that a cut accounts for, in order. -/
def Cut.chars : Cut → List Char
  | token _ _ spelling rest => spelling ++ rest
  | fault _ _ passed rest => passed ++ rest

/-- The characters that the body of a string accounts for, if it does not run to the end. -/
def Body.chars? : Body → Option (List Char)
  | closed _ spelling rest => some (spelling ++ rest)
  | badEscape _ before rest => some (before ++ '\\' :: rest)
  | unclosed => none

theorem Body.chars?_prepend (c : Char) (spelled : List Char) (b : Body) :
    (b.prepend c spelled).chars? = b.chars?.map (spelled ++ ·) := by
  cases b <;> simp [prepend, chars?]

theorem chars?_readBody {quote : Char} {cs ds : List Char}
    (h : (readBody quote cs).chars? = some ds) : ds = cs := by
  fun_induction readBody quote cs generalizing ds with
  | case1 => simp [Body.chars?] at h
  | case2 cs => simpa [Body.chars?, eq_comm] using h
  | case3 => simp [Body.chars?] at h
  | case4 _ e cs d hd ih =>
    obtain ⟨es, hes, rfl⟩ := Option.map_eq_some_iff.1 (Body.chars?_prepend .. ▸ h)
    simp [ih hes]
  | case5 => simpa [Body.chars?, eq_comm] using h
  | case6 c cs _ _ ih =>
    obtain ⟨es, hes, rfl⟩ := Option.map_eq_some_iff.1 (Body.chars?_prepend .. ▸ h)
    simp [ih hes]

theorem append_splitFraction (cs : List Char) :
    (splitFraction cs).1 ++ (splitFraction cs).2 = cs := by
  rw [splitFraction.eq_def]
  split
  · dsimp only
    split <;> simp [List.takeWhile_append_dropWhile]
  · rfl

theorem append_splitSign (cs : List Char) : (splitSign cs).1 ++ (splitSign cs).2 = cs := by
  rw [splitSign.eq_def]
  split <;> rfl

theorem append_splitExponent (cs : List Char) :
    (splitExponent cs).1 ++ (splitExponent cs).2 = cs := by
  cases cs with
  | nil => rfl
  | cons c cs =>
    dsimp only [splitExponent]
    split
    · simp [List.takeWhile_append_dropWhile, append_splitSign]
    · rfl

theorem append_splitNumber (cs : List Char) : (splitNumber cs).1 ++ (splitNumber cs).2 = cs := by
  simp [splitNumber, append_splitExponent, append_splitFraction, List.takeWhile_append_dropWhile]

theorem append_drop_of_symbol? {cs : List Char} {s : String} (h : symbol? cs = some s) :
    s.toList ++ cs.drop s.toList.length = cs := by
  have hs : s.toList.isPrefixOf cs = true := by
    have := List.find?_some h
    simpa using this
  obtain ⟨ds, rfl⟩ := List.isPrefixOf_iff_prefix.1 hs
  simp

/-- A cut loses nothing of its text. -/
theorem chars_cut (cs : List Char) : (cut cs).chars = cs := by
  cases cs with
  | nil => rfl
  | cons c cs =>
    rw [cut]
    split
    · split
      · next h =>
        have := chars?_readBody (congrArg Body.chars? h)
        simpa [Cut.chars] using this
      · next h =>
        have := chars?_readBody (congrArg Body.chars? h)
        simpa [Cut.chars] using this
      · simp [Cut.chars]
    split
    · exact List.takeWhile_append_dropWhile
    split
    · dsimp only
      split
      · exact append_splitNumber _
      · rfl
    split
    · next h => exact append_drop_of_symbol? h
    · rfl

/-- Only the end of the text is spelled by nothing. -/
theorem spelling_ne_nil {cs text spelling rest : List Char} {kind : TokenKind}
    (h : cut cs = .token kind text spelling rest) (hkind : kind ≠ .eof) : spelling ≠ [] := by
  cases cs with
  | nil => simp_all [cut]
  | cons c cs =>
    rw [cut] at h
    split at h
    · split at h <;> simp at h
      simp [← h.2.2.1]
    split at h
    · next hname =>
      have : Text.isNameChar c = true := by
        simp only [Text.isNameStart, Text.isNameChar, Char.isAlphanum] at hname ⊢
        grind
      simp only [Cut.token.injEq] at h
      simp [← h.2.2.1, this]
    split at h
    · next hdigit =>
      dsimp only at h
      split at h
      · simp only [Cut.token.injEq] at h
        simp [← h.2.2.1, splitNumber, hdigit]
      · simp at h
    split at h
    · next s hs =>
      have hsymbols : ∀ s ∈ symbols, s.toList ≠ [] := by decide
      simp only [Cut.token.injEq] at h
      exact h.2.2.1 ▸ hsymbols s (List.mem_of_find?_eq_some hs)
    · simp at h

end Lexeme

end TemplateExpr
