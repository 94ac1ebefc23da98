import TemplateExpr.CommandLine

/-!
# The program

Standard input is read only by a call that needs it. A call that is not understood ends with the
code 2.
-/

open TemplateExpr CommandLine

/-- Runs one call. -/
def main (args : List String) : IO UInt32 := do
  match Call.ofArguments? args with
  | none =>
    (← IO.getStderr).putStrLn "usage: tplexpr check [EXPR] | tokens [EXPR] | docs | doc CATEGORY"
    return 2
  | some call =>
    let input ← if call.readsInput then (← IO.getStdin).readBinToEnd else pure .empty
    let outcome := call.outcome input
    (← IO.getStdout).putStr outcome.stdout
    (← IO.getStderr).putStr outcome.stderr
    return outcome.code.toUInt32
