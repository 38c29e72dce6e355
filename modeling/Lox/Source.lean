import Lox.Grammar.Program
import Lox.Limits
import Lox.Node.Rendering
import Lox.Token.ScanError

namespace Lox

inductive SourceError where
  | scan (error : ScanError)
  | grammar (error : SyntaxError)
  deriving DecidableEq

def SourceError.text : SourceError → String
  | scan error => error.text
  | grammar error => error.text

namespace Source

def tokens (source : List Char) : Except SourceError (List Token) :=
  (Token.scan source).mapError .scan

def declarationTrace (limits : Limits) (statement : Node) : String :=
  match statement.source? limits.source with
  | none => ""
  | some text =>
    "Parsed declaration: " ++ text ++ "\n" ++ (statement.outline? limits.outline 1).getD ""

def traceable (limits : Limits) (statement : Node) : Bool :=
  statement.height ≤ limits.source && statement.height ≤ limits.outline

/-- The statements of a list of tokens, and the trace of the declarations among them. Tracing is
part of reading: a declaration that cannot be traced counts as nested too deeply. -/
def tracedProgram (limits : Limits) (tokens : List Token) :
    String × Except SyntaxError (List Node) :=
  let reading := Grammar.readProgram limits.parsing (traceable limits) tokens
  let trace := String.join (reading.statements.map (declarationTrace limits))
  match reading.fault with
  | none => (trace, .ok reading.statements)
  | some fault => (trace, .error fault.error)

def statements (limits : Limits) (traced : Bool) (source : List Char) (tokens : List Token) :
    String × Except SourceError (List Node) :=
  let (trace, result) :=
    if traced then tracedProgram limits tokens
    else ("", Grammar.parseProgram limits.parsing tokens)
  (trace, result.mapError fun error => .grammar (error.inSource source))

def program (limits : Limits) (source : List Char) : Except SourceError (List Node) := do
  let tokens ← tokens source
  (statements limits false source tokens).2

def expression (limits : Limits) (source : List Char) : Except SourceError Node := do
  let tokens ← tokens source
  (Grammar.parseExpression limits.parsing tokens).mapError .grammar

end Source
end Lox
