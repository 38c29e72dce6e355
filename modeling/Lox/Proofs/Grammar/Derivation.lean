import Lox.Node.Basic
import Lox.Token.Basic

/-!
The grammar as a relation between kinds of tokens and trees. It says which lists of kinds make up
a program and what tree each stands for, and it knows nothing of how tokens are read.

    program      → declaration* END
    declaration  → variable | statement
    variable     → "var" IDENTIFIER ( "=" expression )? ";"
    evaluation   → expression ";"
    statement    → evaluation | "print" expression ";"
                 | "if" "(" expression ")" statement ( "else" statement )?
                 | "while" "(" expression ")" statement
                 | "for" "(" ( variable | evaluation | ";" ) expression? ";" expression? ")"
                   statement
                 | "{" declaration* "}"
    expression   → assignment
    assignment   → IDENTIFIER "=" assignment | disjunction
    disjunction  → conjunction ( "or" conjunction )*
    conjunction  → equality ( "and" equality )*
    equality     → comparison ( ( "!=" | "==" ) comparison )*
    comparison   → term ( ( ">" | ">=" | "<" | "<=" ) term )*
    term         → factor ( ( "-" | "+" ) factor )*
    factor       → unary ( ( "/" | "*" ) unary )*
    unary        → ( "!" | "-" ) unary | call
    call         → primary ( "(" ( expression ( "," expression )* )? ")" )*
    primary      → NUMBER | STRING | "true" | "false" | "nil" | IDENTIFIER | "(" expression ")"
-/
namespace Lox.Grammar

open Token (Kind)

inductive Level where
  | assignment | disjunction | conjunction | equality | comparison | term | factor | unary | call
  | primary
  deriving DecidableEq

namespace Level

def operand : Level → Level
  | assignment => disjunction
  | disjunction => conjunction
  | conjunction => equality
  | equality => comparison
  | comparison => term
  | term => factor
  | factor => unary
  | unary => call
  | call | primary => primary

def operator? : Level → Kind → Option Operator
  | disjunction, .orWord => some .or
  | conjunction, .andWord => some .and
  | equality, .bangEqual => some .bangEqual
  | equality, .equalEqual => some .equalEqual
  | comparison, .greater => some .greater
  | comparison, .greaterEqual => some .greaterEqual
  | comparison, .less => some .less
  | comparison, .lessEqual => some .lessEqual
  | term, .minus => some .minus
  | term, .plus => some .plus
  | factor, .slash => some .slash
  | factor, .star => some .star
  | _, _ => none

def chained : Level → Bool
  | disjunction | conjunction | equality | comparison | term | factor => true
  | _ => false

def join : Level → Node → Operator → Node → Node
  | disjunction | conjunction => .logical
  | _ => .binary

end Level

def prefixOperator? : Kind → Option Operator
  | .bang => some .bang
  | .minus => some .minus
  | _ => none

def literal? : Kind → Option Value
  | .falseWord => some (.boolean false)
  | .trueWord => some (.boolean true)
  | .nilWord => some .nil
  | .number value => some (.number value)
  | .string text => some (.string text)
  | _ => none

structure Part where
  kinds : List Kind
  node : Node

structure Link where
  kind : Kind
  operator : Operator
  operand : Part

namespace Link

def kinds (link : Link) : List Kind := link.kind :: link.operand.kinds

def chain (level : Level) (first : Node) (links : List Link) : Node :=
  links.foldl (fun left link => level.join left link.operator link.operand.node) first

/-- What operators keep holds of operands with operators between them, if it holds of the operands. -/
theorem chain_induction {motive : Node → Prop} {level : Level} {first : Node} {links : List Link}
    (begins : motive first) (operands : ∀ link ∈ links, motive link.operand.node)
    (join : ∀ link ∈ links, ∀ left, motive left → motive link.operand.node →
      motive (level.join left link.operator link.operand.node)) :
    motive (chain level first links) := by
  induction links generalizing first with
  | nil => exact begins
  | cons link links ih =>
    rw [List.forall_mem_cons] at operands join
    exact ih (join.1 first begins operands.1) operands.2 join.2

end Link

def separated : List Part → List Kind
  | [] => []
  | first :: rest => first.kinds ++ rest.flatMap fun part => .comma :: part.kinds

def enclosed (arguments : List Part) : List Kind :=
  .leftParen :: (separated arguments ++ [.rightParen])

def applied (callee : Node) (calls : List (List Part)) : Node :=
  calls.foldl (fun callee arguments => .call callee (arguments.map Part.node)) callee

/-- What calls keep holds of a callee with lists of arguments after it, if it holds of the callee. -/
theorem applied_induction {motive : Node → Prop} {callee : Node} {calls : List (List Part)}
    (begins : motive callee)
    (call : ∀ arguments ∈ calls, ∀ callee, motive callee →
      motive (.call callee (arguments.map Part.node))) :
    motive (applied callee calls) := by
  induction calls generalizing callee with
  | nil => exact begins
  | cons arguments calls ih =>
    rw [List.forall_mem_cons] at call
    exact ih (call.1 callee begins) call.2

inductive Phrase : Level → List Kind → Node → Prop where
  | assign {name : String} {kinds : List Kind} {value : Node} :
    Phrase .assignment kinds value →
    Phrase .assignment (.identifier name :: .equal :: kinds) (.assign name value)
  | disjunction {kinds : List Kind} {node : Node} :
    Phrase .disjunction kinds node → Phrase .assignment kinds node
  | chain {level : Level} {kinds : List Kind} {first : Node} {links : List Link} :
    level.chained →
    Phrase level.operand kinds first →
    (∀ link ∈ links, level.operator? link.kind = some link.operator) →
    (∀ link ∈ links, Phrase level.operand link.operand.kinds link.operand.node) →
    Phrase level (kinds ++ links.flatMap Link.kinds) (Link.chain level first links)
  | signed {kind : Kind} {operator : Operator} {kinds : List Kind} {right : Node} :
    prefixOperator? kind = some operator →
    Phrase .unary kinds right →
    Phrase .unary (kind :: kinds) (.unary operator right)
  | unsigned {kinds : List Kind} {node : Node} :
    Phrase .call kinds node → Phrase .unary kinds node
  | call {kinds : List Kind} {callee : Node} {calls : List (List Part)} :
    Phrase .primary kinds callee →
    (∀ arguments ∈ calls, arguments.length ≤ 255) →
    (∀ arguments ∈ calls, ∀ part ∈ arguments, Phrase .assignment part.kinds part.node) →
    Phrase .call (kinds ++ calls.flatMap enclosed) (applied callee calls)
  | literal {kind : Kind} {value : Value} :
    literal? kind = some value → Phrase .primary [kind] (.literal value)
  | identifier {name : String} : Phrase .primary [.identifier name] (.identifier name)
  | grouping {kinds : List Kind} {inner : Node} :
    Phrase .assignment kinds inner →
    Phrase .primary (.leftParen :: (kinds ++ [.rightParen])) (.grouping inner)

inductive Variable : List Kind → Node → Prop where
  | bare {name : String} :
    Variable [.varWord, .identifier name, .semicolon] (.declare name none)
  | initialized {name : String} {kinds : List Kind} {initializer : Node} :
    Phrase .assignment kinds initializer →
    Variable (.varWord :: .identifier name :: .equal :: (kinds ++ [.semicolon]))
      (.declare name (some initializer))

inductive Evaluation : List Kind → Node → Prop where
  | intro {kinds : List Kind} {inner : Node} :
    Phrase .assignment kinds inner → Evaluation (kinds ++ [.semicolon]) (.expression inner)

inductive Initializer : List Kind → Option Node → Prop where
  | absent : Initializer [.semicolon] none
  | declared {kinds : List Kind} {node : Node} :
    Variable kinds node → Initializer kinds (some node)
  | evaluation {kinds : List Kind} {node : Node} :
    Evaluation kinds node → Initializer kinds (some node)

inductive Clause : List Kind → Option Node → Prop where
  | absent : Clause [] none
  | present {kinds : List Kind} {node : Node} :
    Phrase .assignment kinds node → Clause kinds (some node)

/-- Declarations, and statements. A statement dangles when it ends in an `if` that has no `else`:
an `else` after it would belong to that `if`. -/
inductive Form where
  | declaration
  | statement (dangling : Bool)

def desugared (initializer condition increment : Option Node) (body : Node) : Node :=
  .block (initializer.toList ++
    [.loop (condition.getD (.literal (.boolean true)))
      (body :: (increment.map Node.expression).toList)])

inductive Sentence : Form → List Kind → Node → Prop where
  | declared {kinds : List Kind} {node : Node} :
    Variable kinds node → Sentence .declaration kinds node
  | statement {dangling : Bool} {kinds : List Kind} {node : Node} :
    Sentence (.statement dangling) kinds node → Sentence .declaration kinds node
  | evaluation {kinds : List Kind} {node : Node} :
    Evaluation kinds node → Sentence (.statement false) kinds node
  | output {kinds : List Kind} {inner : Node} :
    Phrase .assignment kinds inner →
    Sentence (.statement false) (.printWord :: (kinds ++ [.semicolon])) (.print inner)
  | choice {dangling : Bool} {test branch : List Kind} {condition thenBranch : Node} :
    Phrase .assignment test condition →
    Sentence (.statement dangling) branch thenBranch →
    Sentence (.statement true) (.ifWord :: .leftParen :: (test ++ .rightParen :: branch))
      (.choice condition thenBranch none)
  | alternative {dangling : Bool} {test branch other : List Kind}
      {condition thenBranch elseBranch : Node} :
    Phrase .assignment test condition →
    Sentence (.statement false) branch thenBranch →
    Sentence (.statement dangling) other elseBranch →
    Sentence (.statement dangling)
      (.ifWord :: .leftParen :: (test ++ .rightParen :: (branch ++ .elseWord :: other)))
      (.choice condition thenBranch (some elseBranch))
  | whileLoop {dangling : Bool} {test inner : List Kind} {condition body : Node} :
    Phrase .assignment test condition →
    Sentence (.statement dangling) inner body →
    Sentence (.statement dangling) (.whileWord :: .leftParen :: (test ++ .rightParen :: inner))
      (.loop condition [body])
  | forLoop {dangling : Bool} {start test advance inner : List Kind}
      {initializer condition increment : Option Node} {body : Node} :
    Initializer start initializer →
    Clause test condition →
    Clause advance increment →
    Sentence (.statement dangling) inner body →
    Sentence (.statement dangling)
      (.forWord :: .leftParen ::
        (start ++ (test ++ .semicolon :: (advance ++ .rightParen :: inner))))
      (desugared initializer condition increment body)
  | block {parts : List Part} :
    (∀ part ∈ parts, Sentence .declaration part.kinds part.node) →
    Sentence (.statement false) (.leftBrace :: (parts.flatMap Part.kinds ++ [.rightBrace]))
      (.block (parts.map Part.node))

def Program (kinds : List Kind) (statements : List Node) : Prop :=
  ∃ parts : List Part, (∀ part ∈ parts, Sentence .declaration part.kinds part.node) ∧
    kinds = parts.flatMap Part.kinds ∧ statements = parts.map Part.node

end Lox.Grammar
