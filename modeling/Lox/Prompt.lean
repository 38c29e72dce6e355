import Lox.Session
import Lox.Text.Space

/-!
The interactive mode: lines are run one after the other in one session, and some lines are
commands that look at it.
-/
namespace Lox.Prompt

def version : String := "pylox 0.1.0"

def banner (traced : Bool) : String :=
  version ++ " - Interactive Mode\nType 'exit' to quit, ':help' for commands\n" ++
    (if traced then "Debug mode enabled\n" else "") ++ "\n"

def farewell : String := "\nGoodbye!\n"

def mark : String := ">> "

def help : String := "REPL Commands:
  :tokens <src>     - Show the tokens of <src>
  :ast <src>        - Show the parsed statements of <src>
  :env              - Show global variables
  :help             - Show this help
  exit              - Exit REPL

Input that is a single expression is evaluated and echoed, anything else
runs as statements:
  var a = 1;        - Declare a variable
  a = a + 1         - Echoes => 2.0
  print a;          - Prints 2.0
"

def completions (text : String) : List String :=
  ["and", "else", "false", "for", "if", "nil", "or", "print", "true", "var", "while",
   ":tokens", ":ast", ":env", ":help", "exit"].filter fun word =>
    text.toList.isPrefixOf word.toList

inductive Next where
  | goOn
  | leave
  /-- what no line is expected to bring about -/
  | escape (failure : Failure)

structure Turn where
  output : String
  trace : String
  tree : ScopeTree
  next : Next

def shown (output : String) (tree : ScopeTree) : Turn := ⟨output, "", tree, .goOn⟩

def ofStep (step : Step Unit) : Turn :=
  match step.result with
  | .ok _ => ⟨step.output, step.trace, step.tree, .goOn⟩
  | .error (.source error) => ⟨step.output ++ error.text ++ "\n", step.trace, step.tree, .goOn⟩
  | .error (.failure (.runtime error)) =>
    ⟨step.output ++ "Runtime Error: " ++ error.message ++ "\n", step.trace, step.tree, .goOn⟩
  | .error (.failure failure) => ⟨step.output, step.trace, step.tree, .escape failure⟩

def tokenLines (source : List Char) : String :=
  match Source.tokens source with
  | .error error => error.text ++ "\n"
  | .ok tokens => String.join (tokens.map fun token => "  " ++ token.describe ++ "\n")

def prefixLines (limits : Limits) (indent : String) : List Node → String × Option Failure
  | [] => ("", none)
  | statement :: rest =>
    match statement.prefixForm? limits.outline with
    | .error .tooDeep => ("", some .tooDeep)
    | .error .foreign => ("", some (.misplaced "node" statement.label))
    | .ok form =>
      let (lines, failure) := prefixLines limits indent rest
      (indent ++ form ++ "\n" ++ lines, failure)

def treeLines (options : Options) (source : List Char) (tree : ScopeTree) : Turn :=
  match Source.tokens source with
  | .error error => shown (error.text ++ "\n") tree
  | .ok tokens =>
    let (trace, result) := Source.statements options.limits options.traced source tokens
    match result with
    | .error error => ⟨error.text ++ "\n", trace, tree, .goOn⟩
    | .ok statements =>
      let (lines, failure) := prefixLines options.limits "  " statements
      ⟨lines, trace, tree, (failure.map Next.escape).getD .goOn⟩

def clipped (text : String) : String :=
  if text.length ≤ 60 then text else String.ofList (text.toList.take 57) ++ "..."

def variableLines (bindings : Bindings) : String :=
  if bindings.isEmpty then "  (no global variables)\n"
  else
    String.join (bindings.map fun (name, value) =>
      let text := (value.map Value.display).getD "<uninitialized>"
      "  " ++ name ++ " = " ++ clipped text ++ "\n")

def operand? (command : String) (line : List Char) : Option (List Char) :=
  let word := command.toList ++ [' ']
  if word.isPrefixOf line then some (line.drop word.length) else none

def command (options : Options) (line : List Char) (tree : ScopeTree) : Turn :=
  match operand? ":tokens" line, operand? ":ast" line with
  | some source, _ => shown (tokenLines source) tree
  | none, some source => treeLines options source tree
  | none, none =>
    if Text.trimmed line = ":env".toList then shown (variableLines (tree.bindings 0)) tree
    else if Text.trimmed line = ":help".toList then shown help tree
    else
      let word := String.ofList (Text.firstWord line)
      shown ("Unknown command: " ++ word ++ " (try :help)\n") tree

def turn (options : Options) (line : List Char) (tree : ScopeTree) : Turn :=
  if Text.trimmed line = "exit".toList then ⟨"", "", tree, .leave⟩
  else if (Text.trimmed line).isEmpty then shown "" tree
  else if line.head? = some ':' then command options line tree
  else ofStep (Session.line options line tree)

/-- The texts written before the first line and after each line, the last one when the mode is
left; a failure that got out ends them too. -/
structure Transcript where
  chunks : List String
  trace : String
  escaped : Option Failure

/-- Lines one after the other; no line is an interruption, and so is the end of the lines. -/
def converse (options : Options) : List (Option (List Char)) → ScopeTree → Transcript
  | [], _ | none :: _, _ => ⟨[farewell], "", none⟩
  | some line :: rest, tree =>
    let turn := turn options line tree
    match turn.next with
    | .leave => ⟨[turn.output], turn.trace, none⟩
    | .escape failure => ⟨[turn.output], turn.trace, some failure⟩
    | .goOn =>
      let others := converse options rest turn.tree
      { others with
        chunks := turn.output :: others.chunks
        trace := turn.trace ++ others.trace }

def run (options : Options) (lines : List (Option (List Char))) : Transcript :=
  let transcript := converse options lines ScopeTree.initial
  { transcript with chunks := banner options.traced :: transcript.chunks }

end Lox.Prompt
