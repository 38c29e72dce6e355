import Lox.Grammar.Program

namespace Lox.Grammar

structure Cursor where
  tokens : List Token
  rest : List Token

namespace Cursor

def ofTokens (tokens : List Token) : Except SyntaxError Cursor :=
  if tokens.getLast?.any Token.isEnd then .ok ⟨tokens, tokens⟩ else .error .endMissing

def position (cursor : Cursor) : Nat := cursor.tokens.length - cursor.rest.length

def previous (cursor : Cursor) : Token :=
  if cursor.position = 0 then cursor.tokens.getLast?.getD (Token.endOfInput 0)
  else cursor.tokens[cursor.position - 1]?.getD (Token.endOfInput 0)

def run {α : Type} (parser : Parser α) (cursor : Cursor) : Except Fault α × Cursor :=
  match parser cursor.rest with
  | .ok value rest => (.ok value, { cursor with rest := rest })
  | .error fault rest => (.error fault, { cursor with rest := rest })

end Cursor

def acceptNamed (names : List String) : Parser (Option Token) :=
  acceptIf fun kind => names.contains kind.name

def requireNamed (name message : String) : Parser Token :=
  requireIf (fun kind => kind.name == name) (.custom message)

/-- The statements of a program. One that is not `plain` counts as nested too deeply. -/
def plainProgram (limit : Nat) (plain : Node → Bool) : Parser (List Node) := fun tokens =>
  let reading := readProgram limit plain tokens
  match reading.fault with
  | none => .ok reading.statements reading.rest
  | some fault => .error fault reading.rest

/-- What can be asked of a cursor: to look at tokens, to pass them, and to read by a rule. -/
inductive Request where
  | peek
  | previous
  | advance
  | atEnd
  | check (name : String)
  | accept (names : List String)
  | expect (name : String)
  | consume (name message : String)
  | complain (token : Token) (message : String)
  | program
  | singleExpression
  | arguments (callee : Node)
  | rule (rule : Rule)

inductive Answer where
  | token (token : Token)
  | found (token : Option Token)
  | truth (truth : Bool)
  | error (error : SyntaxError)
  | node (node : Node)
  | nodes (nodes : List Node)

def Request.parser (limit : Nat) (plain : Node → Bool) (previous : Token) :
    Request → Parser Answer
  | .peek => return .token (← Grammar.peek)
  | .previous => return .token previous
  | .advance => return .token (← Grammar.advance)
  | .atEnd => return .truth (← Grammar.atEnd)
  | .check name => return .truth ((← Grammar.peek).kind.name == name)
  | .accept names => return .truth (← acceptNamed names).isSome
  | .expect name => return .found (← acceptNamed [name])
  | .consume name message => return .token (← requireNamed name message)
  | .complain token message => return .error (.atToken (.custom message) token)
  | .program => return .nodes (← plainProgram limit plain)
  | .singleExpression => return .node (← Grammar.singleExpression limit)
  | .arguments callee => return .node (.call callee (← Grammar.arguments (parse limit .expression)))
  | .rule asked => return .node (← parse limit asked)

def Fault.report : Fault → Option SyntaxError
  | rejected complaint rest => some (rejected complaint rest).error
  | tooDeep => none

namespace Cursor

def ask (limit : Nat) (plain : Node → Bool) (request : Request) (cursor : Cursor) :
    Except (Option SyntaxError) Answer × Cursor :=
  let (reply, later) := cursor.run (request.parser limit plain cursor.previous)
  (reply.mapError Fault.report, later)

def after (limit : Nat) (plain : Node → Bool) : List Request → Cursor → Cursor
  | [], cursor => cursor
  | request :: others, cursor => after limit plain others (cursor.ask limit plain request).2

end Cursor
end Lox.Grammar
