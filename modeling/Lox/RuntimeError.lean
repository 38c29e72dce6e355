import Lox.Node.Text

namespace Lox

inductive RuntimeError where
  | uninitialized (name : String)
  | unknownName (name : String)
  | unknownTarget (name : String)
  | arithmetic (operator : Operator) (left right : Value)
  | comparison (operator : Operator) (left right : Value)
  | append (left right : Value)
  | incomparable (left right : Value)
  | negation (value : Value)
  | unaryOperator (operator : Operator)
  | binaryOperator (operator : Operator)
  | logicalOperator (operator : Operator)
  | call (node : Node)
  | tooDeep

namespace RuntimeError

def operation (left : Value) (operator : Operator) (right : Value) : String :=
  left.describe ++ " " ++ operator.symbol ++ " " ++ right.describe

def message : RuntimeError → String
  | uninitialized name => "Uninitialized variable access: " ++ name
  | unknownName name => "Unknown variable access: " ++ name
  | unknownTarget name => "Assignment to unknown variable " ++ name
  | arithmetic operator left right => "Arithmetic error: " ++ operation left operator right
  | comparison operator left right => "Comparison error: " ++ operation left operator right
  | append left right => "Cannot append " ++ right.describe ++ " to string " ++ left.describe
  | incomparable left right =>
    "Don't know how to compare " ++ left.describe ++ " and " ++ right.describe
  | negation value => "Cannot negate " ++ value.describe
  | unaryOperator operator => "Unary inappropriate for " ++ operator.symbol
  | binaryOperator operator => "Unknown operation: " ++ operator.symbol
  | logicalOperator operator => "Unexpected logical operator: " ++ operator.symbol
  | call node => "Function calls are not yet supported: " ++ node.source
  | tooDeep => "Program nested too deeply: maximum recursion depth exceeded"

def text (error : RuntimeError) : String := "Runtime error: " ++ error.message

end RuntimeError
end Lox
