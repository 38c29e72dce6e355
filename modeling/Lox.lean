import Lox.Grammar.Cursor
import Lox.Main
import Lox.Proofs.Grammar.Derivation
import Lox.Proofs.Grammar.Reading
import Lox.Proofs.Grammar.Soundness
import Lox.Proofs.Grammar.Boundary
import Lox.Proofs.Grammar.Nesting
import Lox.Proofs.Grammar.Completeness.Phrase
import Lox.Proofs.Grammar.Completeness.Sentence
import Lox.Proofs.Grammar.Acceptance
import Lox.Proofs.Number.Rank
import Lox.Proofs.Number.Shortest
import Lox.Proofs.Number.Written
import Lox.Proofs.Token.Pattern
import Lox.Proofs.Token.Scanned
import Lox.Proofs.Node.ReadBack
import Lox.Proofs.Grammar.Rendering.Phrase
import Lox.Proofs.Source.Expression
import Lox.Proofs.Resolution.Watched
import Lox.Proofs.Resolution.Lexical
import Lox.Proofs.Grammar.Rendering.Sentence
import Lox.Proofs.Source.Program
import Lox.Proofs.Bracing.Session
import Lox.Proofs.Token.Partition
import Lox.Proofs.Token.Seam
import Lox.Proofs.Grammar.Locality.Program
import Lox.Proofs.Piecewise.Source
import Lox.Proofs.Piecewise.Steady
import Lox.Proofs.Piecewise.Session
import Lox.Proofs.Grammar.Mending.Parser
import Lox.Proofs.Grammar.Mending.Rule
import Lox.Proofs.Grammar.Offence
import Lox.Proofs.Safety.Known
import Lox.Proofs.Safety.Observed
import Lox.Proofs.Safety.Sound
import Lox.Proofs.Safety.Session
import Lox.Proofs.Source.Layout
import Lox.Proofs.Grammar.Enclosed.Parser
import Lox.Proofs.Grammar.Enclosed.Rule
import Lox.Proofs.Grammar.Enclosed.Rounds
import Lox.Proofs.Grammar.Enclosed.Cursor
import Lox.Proofs.Source.Tracing
import Lox.Proofs.Grammar.Foreign
import Lox.Proofs.Outcome.Script
import Lox.Proofs.Outcome.Prompt
import Lox.Proofs.Scope.Rooted
import Lox.Proofs.Scope.Revised
import Lox.Proofs.Node.Occurrence
import Lox.Proofs.Frame.Globals
import Lox.Proofs.Frame.Independent
import Lox.Proofs.Frame.Isolated
import Lox.Proofs.Renaming.Session
import Lox.Proofs.Token.Failure
import Lox.Proofs.Run.Closed
import Lox.Proofs.Run.Recast
import Lox.Proofs.Session.Traced
import Lox.Proofs.Run.Shallow
import Lox.Proofs.Source.Printed
import Lox.Proofs.Session.Echo
import Lox.Proofs.Session.Line
import Lox.Proofs.Safety.Shown
import Lox.Proofs.Session.Seen
import Lox.Proofs.Outcome.Rejected
import Lox.Proofs.Source.Numeral
import Lox.Proofs.Text.Lines
import Lox.Proofs.Diagnostic.Excerpt
import Lox.Proofs.Diagnostic.Scan
import Lox.Proofs.Diagnostic.Syntax
import Lox.Proofs.Iteration.Loop
import Lox.Proofs.Iteration.Desugared
import Lox.Proofs.Number.Nearest
import Lox.Proofs.Number.Display
import Lox.Proofs.Source.Displayed
import Lox.Proofs.Token.LineEnding
import Lox.Proofs.Grammar.Carried
import Lox.Proofs.Node.Outline
import Lox.Proofs.Source.Outline
import Lox.Proofs.Grammar.Terminated
import Lox.Proofs.Scope.Store
import Lox.Proofs.Outcome.Status
