import TemplateExpr.Binary64
import TemplateExpr.Binary64.Notation
import TemplateExpr.Binary64.Rounding
import TemplateExpr.Binary64.Shortest
import TemplateExpr.Command
import TemplateExpr.CommandLine
import TemplateExpr.Cursor
import TemplateExpr.Decimal
import TemplateExpr.Decimal.Nearby
import TemplateExpr.Decimal.Reading
import TemplateExpr.Event
import TemplateExpr.Expr
import TemplateExpr.Expr.Infix
import TemplateExpr.Expr.Json
import TemplateExpr.Grammar
import TemplateExpr.Json
import TemplateExpr.Literal
import TemplateExpr.Main
import TemplateExpr.Manual
import TemplateExpr.Operator
import TemplateExpr.ParseError
import TemplateExpr.Position
import TemplateExpr.Proofs.BareTokens
import TemplateExpr.Proofs.BreakingOff
import TemplateExpr.Proofs.Building
import TemplateExpr.Proofs.Checking
import TemplateExpr.Proofs.Comparison
import TemplateExpr.Proofs.Completeness
import TemplateExpr.Proofs.Composition
import TemplateExpr.Proofs.Context
import TemplateExpr.Proofs.Cursors
import TemplateExpr.Proofs.Decimals
import TemplateExpr.Proofs.Derivation
import TemplateExpr.Proofs.ErrorPlace
import TemplateExpr.Proofs.Exactness
import TemplateExpr.Proofs.Failure
import TemplateExpr.Proofs.Faults
import TemplateExpr.Proofs.FilterNames
import TemplateExpr.Proofs.Inversion
import TemplateExpr.Proofs.JsonText
import TemplateExpr.Proofs.Layout
import TemplateExpr.Proofs.Levels
import TemplateExpr.Proofs.Lexing
import TemplateExpr.Proofs.Listing
import TemplateExpr.Proofs.Literals
import TemplateExpr.Proofs.LongestMatch
import TemplateExpr.Proofs.Nameless
import TemplateExpr.Proofs.Nearest
import TemplateExpr.Proofs.NormalForm
import TemplateExpr.Proofs.Numbers
import TemplateExpr.Proofs.Origin
import TemplateExpr.Proofs.PlainNames
import TemplateExpr.Proofs.PrintedDecimals
import TemplateExpr.Proofs.PrintedFloats
import TemplateExpr.Proofs.Printing
import TemplateExpr.Proofs.Progress
import TemplateExpr.Proofs.Quoting
import TemplateExpr.Proofs.Recognition
import TemplateExpr.Proofs.Repetition
import TemplateExpr.Proofs.Reporting
import TemplateExpr.Proofs.Rereading
import TemplateExpr.Proofs.Respacing
import TemplateExpr.Proofs.Respelling
import TemplateExpr.Proofs.Resuming
import TemplateExpr.Proofs.RoundTrip
import TemplateExpr.Proofs.Segments
import TemplateExpr.Proofs.Serialization
import TemplateExpr.Proofs.Sessions
import TemplateExpr.Proofs.ShortestDigits
import TemplateExpr.Proofs.Simulation
import TemplateExpr.Proofs.Soundness
import TemplateExpr.Proofs.Sources
import TemplateExpr.Proofs.Steps
import TemplateExpr.Proofs.Streams
import TemplateExpr.Proofs.Termination
import TemplateExpr.Proofs.Tiling
import TemplateExpr.Proofs.Translating
import TemplateExpr.Proofs.Viability
import TemplateExpr.Proofs.WholeNumbers
import TemplateExpr.Proofs.WordOrder
import TemplateExpr.Proofs.WrittenName
import TemplateExpr.Reading
import TemplateExpr.Session
import TemplateExpr.Source
import TemplateExpr.Text.Basic
import TemplateExpr.Text.Numeral
import TemplateExpr.Text.Quoted
import TemplateExpr.Text.Unprintable
import TemplateExpr.Token
import TemplateExpr.Token.Lexeme
