import TemplateExpr.Command

/-!
# The command line

From the arguments of a call and the bytes of its standard input to what it prints and the code with
which it ends.

## Flags

A flag begins with a hyphen, and a hyphen by itself is no flag. Flags of one letter may be joined,
flags and other arguments may stand in any order, and two hyphens end the flags.

## Calls

A flag that the command does not know or that is given twice, and an argument too many or too few,
make a call that is not understood. A text that is not among the arguments is read from the standard
input.
-/

namespace TemplateExpr.CommandLine

open Command

/-! ## Flags -/

inductive Flag where
  /-- Print JSON. -/
  | json
  /-- Spread JSON over several lines. -/
  | pretty
  /-- Read a list of expressions. -/
  | comma
  /-- Do not print the tree. -/
  | syntaxOnly
deriving DecidableEq

def Flag.ofLetter? : Char → Option Flag
  | 'j' => some .json
  | 'p' => some .pretty
  | 'c' => some .comma
  | _ => none

def Flag.ofName? : List Char → Option Flag
  | ['j', 's', 'o', 'n'] => some .json
  | ['p', 'r', 'e', 't', 't', 'y'] => some .pretty
  | ['c', 'o', 'm', 'm', 'a'] => some .comma
  | ['s', 'y', 'n', 't', 'a', 'x', '-', 'o', 'n', 'l', 'y'] => some .syntaxOnly
  | _ => none

/-- The flags in an argument; an argument that is none of them has no flags. -/
def flagsIn? : List Char → Option (List Flag)
  | '-' :: '-' :: name => (Flag.ofName? name).map ([·])
  | '-' :: letters => letters.mapM Flag.ofLetter?
  | _ => none

/-- Whether an argument can only be a flag. -/
def looksLikeFlag : List Char → Bool
  | '-' :: _ :: _ => true
  | _ => false

/-- Parts the arguments of a command into flags and others, if all the flags are known. -/
def partArguments? : List String → Option (List Flag × List String)
  | [] => some ([], [])
  | a :: rest =>
    if a = "--" then some ([], rest)
    else if looksLikeFlag a.toList then do
      let here ← flagsIn? a.toList
      let (flags, others) ← partArguments? rest
      return (here ++ flags, others)
    else do
      let (flags, others) ← partArguments? rest
      return (flags, a :: others)

/-! ## Calls -/

/-- A call that is understood. -/
inductive Call where
  /-- Check an expression, with the given flags. -/
  | check (text? : Option String) (flags : List Flag)
  /-- List the tokens of a text. -/
  | tokens (text? : Option String)
  /-- Show the overview of the manual. -/
  | overview
  /-- Show a topic of the manual. -/
  | topic (name : String)
  /-- Show the version. -/
  | version

/-- The call that a list of arguments makes. -/
def Call.ofArguments? : List String → Option Call
  | [] => none
  | command :: rest =>
    match command with
    | "check" => do
      let (flags, others) ← partArguments? rest
      if flags.Nodup ∧ others.length ≤ 1 then return .check others.head? flags else none
    | "tokens" => do
      let (flags, others) ← partArguments? rest
      if flags = [] ∧ others.length ≤ 1 then return .tokens others.head? else none
    | "docs" => do
      let (flags, others) ← partArguments? rest
      if flags = [] ∧ others = [] then return .overview else none
    | "doc" => do
      let (flags, others) ← partArguments? rest
      match flags, others with
      | [], [name] => return .topic name
      | _, _ => none
    | "--version" => some .version
    | _ =>
      match command.toList with
      | '-' :: 'V' :: _ => some .version
      | _ => none

/-! ## Running a call -/

/-- The text of a call: the argument, or the standard input. -/
def inputText (text? : Option String) (input : ByteArray) : Except Command.Error String :=
  match text? with
  | some s => .ok s
  | none =>
    match String.fromUTF8? input with
    | some s => .ok s
    | none => .error (.io "stream did not contain valid UTF-8")

def formOf (flags : List Flag) : Form :=
  if .json ∈ flags then if .pretty ∈ flags then .prettyJson else .json else .plain

/-- What a call prints, given the bytes of its standard input. -/
def Call.run (input : ByteArray) : Call → Except Command.Error String
  | .check text? flags => do
    let text ← inputText text? input
    match ← Check.run ⟨text, formOf flags, .comma ∈ flags, .syntaxOnly ∈ flags⟩ with
    | .valid => return "Syntax is valid\n"
    | .printed text => return text ++ "\n"
  | .tokens text? => do
    let text ← inputText text? input
    return (← listTokens text) ++ "\n"
  | .overview => return Manual.overview
  | .topic name => lookUp name
  | .version => return "tplexpr 0.1.0\n"

/-- Whether a call reads the standard input. -/
def Call.readsInput : Call → Bool
  | .check none _ | .tokens none => true
  | _ => false

/-- What a call leaves behind. -/
structure Outcome where
  /-- The code with which it ends. -/
  code : Nat
  /-- What it prints. -/
  stdout : String
  /-- What it prints as an error. -/
  stderr : String

def Call.outcome (input : ByteArray) (call : Call) : Outcome :=
  match call.run input with
  | .ok text => ⟨0, text, ""⟩
  | .error e => ⟨1, "", e.message ++ "\n"⟩

end TemplateExpr.CommandLine
