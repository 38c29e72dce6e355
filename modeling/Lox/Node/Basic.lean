import Lox.Operator
import Lox.Value.Basic

/-!
Programs as trees. Expressions and statements are nodes of one type, so that a tree may hold
either anywhere; which of them stand where is a property of the trees that the grammar builds.
-/
namespace Lox

inductive Node where
  | literal (value : Value)
  | identifier (name : String)
  | assign (name : String) (value : Node)
  | unary (operator : Operator) (right : Node)
  | binary (left : Node) (operator : Operator) (right : Node)
  | logical (left : Node) (operator : Operator) (right : Node)
  | grouping (inner : Node)
  | call (callee : Node) (arguments : List Node)
  | expression (inner : Node)
  | print (inner : Node)
  | declare (name : String) (initializer : Option Node)
  | block (statements : List Node)
  | choice (condition thenBranch : Node) (elseBranch : Option Node)
  | loop (condition : Node) (body : List Node)
  /-- something that is no part of a program -/
  | foreign

namespace Node

def label : Node → String
  | literal _ => "Literal"
  | identifier _ => "Variable"
  | assign _ _ => "Assign"
  | unary _ _ => "Unary"
  | binary _ _ _ => "Binary"
  | logical _ _ _ => "Logical"
  | grouping _ => "Grouping"
  | call _ _ => "Call"
  | expression _ => "Expression"
  | print _ => "Print"
  | declare _ _ => "Var"
  | block _ => "Block"
  | choice _ _ _ => "If"
  | loop _ _ => "While"
  | foreign => "Unknown"

def children : Node → List Node
  | literal _ | identifier _ | foreign => []
  | assign _ value => [value]
  | unary _ right => [right]
  | binary left _ right | logical left _ right => [left, right]
  | grouping inner | expression inner | print inner => [inner]
  | call callee arguments => callee :: arguments
  | declare _ initializer => initializer.toList
  | block statements => statements
  | choice condition thenBranch elseBranch => condition :: thenBranch :: elseBranch.toList
  | loop condition body => condition :: body

mutual

def height : Node → Nat
  | literal _ | identifier _ | foreign | declare _ none => 1
  | assign _ inner | unary _ inner | grouping inner | expression inner | print inner
  | declare _ (some inner) => inner.height + 1
  | binary left _ right | logical left _ right => max left.height right.height + 1
  | call callee arguments => max callee.height (heights arguments) + 1
  | block statements => heights statements + 1
  | choice condition thenBranch none => max condition.height thenBranch.height + 1
  | choice condition thenBranch (some elseBranch) =>
    max condition.height (max thenBranch.height elseBranch.height) + 1
  | loop condition body => max condition.height (heights body) + 1

def heights : List Node → Nat
  | [] => 0
  | node :: rest => max node.height (heights rest)

end

mutual

def hasForeign : Node → Bool
  | literal _ | identifier _ | declare _ none => false
  | foreign => true
  | assign _ inner | unary _ inner | grouping inner | expression inner | print inner
  | declare _ (some inner) => inner.hasForeign
  | binary left _ right | logical left _ right => left.hasForeign || right.hasForeign
  | call callee arguments => callee.hasForeign || anyForeign arguments
  | block statements => anyForeign statements
  | choice condition thenBranch none => condition.hasForeign || thenBranch.hasForeign
  | choice condition thenBranch (some elseBranch) =>
    condition.hasForeign || thenBranch.hasForeign || elseBranch.hasForeign
  | loop condition body => condition.hasForeign || anyForeign body

def anyForeign : List Node → Bool
  | [] => false
  | node :: rest => node.hasForeign || anyForeign rest

end

mutual

def agrees : Node → Node → Bool
  | literal x, literal y => x.agrees y
  | identifier x, identifier y => x = y
  | assign x value, assign y other => x = y && value.agrees other
  | unary x right, unary y other => x = y && right.agrees other
  | binary left x right, binary left' y right' =>
    left.agrees left' && x = y && right.agrees right'
  | logical left x right, logical left' y right' =>
    left.agrees left' && x = y && right.agrees right'
  | grouping x, grouping y => x.agrees y
  | call callee arguments, call callee' arguments' =>
    callee.agrees callee' && allAgree arguments arguments'
  | expression x, expression y => x.agrees y
  | print x, print y => x.agrees y
  | declare x none, declare y none => x = y
  | declare x (some value), declare y (some other) => x = y && value.agrees other
  | block statements, block statements' => allAgree statements statements'
  | choice condition thenBranch none, choice condition' thenBranch' none =>
    condition.agrees condition' && thenBranch.agrees thenBranch'
  | choice condition thenBranch (some elseBranch), choice condition' thenBranch' (some elseBranch') =>
    condition.agrees condition' && thenBranch.agrees thenBranch' && elseBranch.agrees elseBranch'
  | loop condition body, loop condition' body' =>
    condition.agrees condition' && allAgree body body'
  | _, _ => false

def allAgree : List Node → List Node → Bool
  | [], [] => true
  | node :: rest, other :: others => node.agrees other && allAgree rest others
  | _, _ => false

end

end Node
end Lox
