import Lox.Grammar.Parser

/-!
The rules of the grammar.

    declaration  → "var" variable | statement
    variable     → IDENTIFIER ( "=" expression )? ";"
    statement    → "for" forLoop | "if" choice | "print" output | "while" whileLoop | "{" block
                 | evaluation
    block        → declaration* "}"
    output       → expression ";"
    evaluation   → expression ";"
    expression   → assignment
    assignment   → IDENTIFIER "=" assignment | disjunction
    disjunction  → conjunction ( "or" conjunction )*
    conjunction  → equality ( "and" equality )*
    equality     → comparison ( ( "!=" | "==" ) comparison )*
    comparison   → term ( ( ">" | ">=" | "<" | "<=" ) term )*
    term         → factor ( ( "-" | "+" ) factor )*
    factor       → unary ( ( "/" | "*" ) unary )*
    unary        → ( "!" | "-" ) unary | call
    call         → primary ( "(" arguments? ")" )*
    primary      → NUMBER | STRING | "true" | "false" | "nil" | IDENTIFIER | "(" expression ")"

`step` says how each rule reads its tokens by means of other rules, and `parse` closes it, one
level of nesting after the other.
-/
namespace Lox.Grammar

inductive Rule where
  | declaration | variable | statement | forLoop | choice | whileLoop | output | evaluation | block
  | expression | assignment | disjunction | conjunction | equality | comparison | term | factor
  | unary | call | primary
  deriving DecidableEq

def orOperator : Token.Kind → Option Operator
  | .orWord => some .or
  | _ => none

def andOperator : Token.Kind → Option Operator
  | .andWord => some .and
  | _ => none

def equalityOperator : Token.Kind → Option Operator
  | .bangEqual => some .bangEqual
  | .equalEqual => some .equalEqual
  | _ => none

def comparisonOperator : Token.Kind → Option Operator
  | .greater => some .greater
  | .greaterEqual => some .greaterEqual
  | .less => some .less
  | .lessEqual => some .lessEqual
  | _ => none

def termOperator : Token.Kind → Option Operator
  | .minus => some .minus
  | .plus => some .plus
  | _ => none

def factorOperator : Token.Kind → Option Operator
  | .slash => some .slash
  | .star => some .star
  | _ => none

def unaryOperator : Token.Kind → Option Operator
  | .bang => some .bang
  | .minus => some .minus
  | _ => none

def furtherOperand (operator? : Token.Kind → Option Operator)
    (build : Node → Operator → Node → Node) (operand : Parser Node) (left : Node) :
    Parser (Option Node) := do
  match operator? (← peek).kind with
  | some operator => do
    let _ ← advance
    let right ← operand
    return some (build left operator right)
  | none => return none

def chain (operator? : Token.Kind → Option Operator) (build : Node → Operator → Node → Node)
    (operand : Parser Node) : Parser Node := do
  repeated (furtherOperand operator? build operand) (← operand)

/-- Up to so many more arguments, each after a comma. -/
def furtherArguments (expression : Parser Node) : Nat → Parser (List Node)
  | 0 => do
    if ← accept .comma then reject .tooManyArguments else return []
  | room + 1 => do
    if ← accept .comma then
      let argument ← expression
      let others ← furtherArguments expression room
      return argument :: others
    else return []

def listedArguments (expression : Parser Node) : Parser (List Node) := do
  if (← peek).kind = .rightParen then return []
  else do
    let first ← expression
    let others ← furtherArguments expression 254
    return first :: others

def arguments (expression : Parser Node) : Parser (List Node) := do
  let listed ← listedArguments expression
  require .rightParen "')' after arguments"
  return listed

def furtherCall (expression : Parser Node) (callee : Node) : Parser (Option Node) := do
  if ← accept .leftParen then return some (.call callee (← arguments expression))
  else return none

def calls (expression : Parser Node) (callee : Node) : Parser Node :=
  repeated (furtherCall expression) callee

def endsBlock (kind : Token.Kind) : Bool := kind = .rightBrace || kind = .endOfInput

def announced (kind : Token.Kind) (parser : Parser Node) : Parser (Option Node) := do
  if ← accept kind then return some (← parser) else return none

def clause (ends : Token.Kind) (parser : Parser Node) : Parser (Option Node) := do
  if (← peek).kind = ends then return none else return some (← parser)

def initializer (declaration evaluation : Parser Node) : Parser (Option Node) := do
  if ← accept .semicolon then return none
  else if ← accept .varWord then return some (← declaration)
  else return some (← evaluation)

def forNode (initializer condition increment : Option Node) (body : Node) : Node :=
  .block (initializer.toList ++
    [.loop (condition.getD (.literal (.boolean true)))
      (body :: (increment.map Node.expression).toList)])

/-- What a rule reads, given what the rules it refers to read. -/
def step (rule : Rule → Parser Node) : Rule → Parser Node
  | .declaration => do
    if ← accept .varWord then rule .variable else rule .statement
  | .variable => do
    let name ← requireName "identifier after 'var'"
    let initializer ← announced .equal (rule .expression)
    require .semicolon "';' after variable declaration"
    return .declare name initializer
  | .statement => do
    if ← accept .forWord then rule .forLoop
    else if ← accept .ifWord then rule .choice
    else if ← accept .printWord then rule .output
    else if ← accept .whileWord then rule .whileLoop
    else if ← accept .leftBrace then rule .block
    else rule .evaluation
  | .forLoop => do
    require .leftParen "'(' after 'for'"
    let initializer ← initializer (rule .variable) (rule .evaluation)
    let condition ← clause .semicolon (rule .expression)
    require .semicolon "';' after loop condition"
    let increment ← clause .rightParen (rule .expression)
    require .rightParen "')' after for clauses"
    let body ← rule .statement
    return forNode initializer condition increment body
  | .choice => do
    require .leftParen "'(' after 'if'"
    let condition ← rule .expression
    require .rightParen "')' after if condition"
    let thenBranch ← rule .statement
    let elseBranch ← announced .elseWord (rule .statement)
    return .choice condition thenBranch elseBranch
  | .whileLoop => do
    require .leftParen "'(' after 'while'"
    let condition ← rule .expression
    require .rightParen "')' after condition"
    let body ← rule .statement
    return .loop condition [body]
  | .output => do
    let value ← rule .expression
    require .semicolon "';' after value"
    return .print value
  | .evaluation => do
    let value ← rule .expression
    require .semicolon "';' after expression"
    return .expression value
  | .block => do
    let statements ← items endsBlock (rule .declaration)
    require .rightBrace "'\x7d' after block"
    return .block statements
  | .expression => rule .assignment
  | .assignment => do
    let target ← rule .disjunction
    let rest ← get
    if ← accept .equal then
      let value ← rule .assignment
      match target with
      | .identifier name => return .assign name value
      | _ => throw (.rejected .invalidTarget rest)
    else return target
  | .disjunction => chain orOperator .logical (rule .conjunction)
  | .conjunction => chain andOperator .logical (rule .equality)
  | .equality => chain equalityOperator .binary (rule .comparison)
  | .comparison => chain comparisonOperator .binary (rule .term)
  | .term => chain termOperator .binary (rule .factor)
  | .factor => chain factorOperator .binary (rule .unary)
  | .unary => do
    match unaryOperator (← peek).kind with
    | some operator => do
      let _ ← advance
      return .unary operator (← rule .unary)
    | none => rule .call
  | .call => do calls (rule .expression) (← rule .primary)
  | .primary => do
    let rest ← get
    match (← advance).kind with
    | .falseWord => return .literal (.boolean false)
    | .trueWord => return .literal (.boolean true)
    | .nilWord => return .literal .nil
    | .number value => return .literal (.number value)
    | .string text => return .literal (.string text)
    | .identifier name => return .identifier name
    | .leftParen => do
      let inner ← rule .expression
      require .rightParen "')' after expression"
      return .grouping inner
    | _ => throw (.rejected (.expected "expression") rest)

def parse : Nat → Rule → Parser Node
  | 0, _ => throw .tooDeep
  | limit + 1, rule => step (parse limit) rule

end Lox.Grammar
