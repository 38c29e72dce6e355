import Lox.Node.Basic

namespace Lox.Node

mutual

def source : Node → String
  | literal value => value.source
  | identifier name => name
  | assign name value => name ++ " = " ++ value.source
  | unary operator right => operator.symbol ++ right.source
  | binary left operator right | logical left operator right =>
    left.source ++ " " ++ operator.symbol ++ " " ++ right.source
  | grouping inner => "(" ++ inner.source ++ ")"
  | call callee arguments => callee.source ++ "(" ++ ", ".intercalate (sources arguments) ++ ")"
  | expression inner => inner.source ++ ";"
  | print inner => "print " ++ inner.source ++ ";"
  | declare name none => "var " ++ name ++ ";"
  | declare name (some initializer) => "var " ++ name ++ " = " ++ initializer.source ++ ";"
  | block statements =>
    let body := " ".intercalate (sources statements)
    if body.isEmpty then "\x7b \x7d" else "\x7b " ++ body ++ " \x7d"
  | choice condition thenBranch none => "if (" ++ condition.source ++ ") " ++ thenBranch.source
  | choice condition thenBranch (some elseBranch) =>
    "if (" ++ condition.source ++ ") " ++ thenBranch.source ++ " else " ++ elseBranch.source
  | loop condition body =>
    "while (" ++ condition.source ++ ") \x7b " ++ " ".intercalate (sources body) ++ " \x7d"
  | foreign => "<unknown>"

def sources : List Node → List String
  | [] => []
  | node :: rest => node.source :: sources rest

end

def prefixLiteral : Value → String
  | .string text => text
  | .number x => x.display
  | value => value.source

mutual

def prefixForm : Node → String
  | literal value => prefixLiteral value
  | identifier name => name
  | assign name value => "(set " ++ name ++ " " ++ value.prefixForm ++ ")"
  | unary operator right => "(" ++ operator.symbol ++ " " ++ right.prefixForm ++ ")"
  | binary left operator right | logical left operator right =>
    "(" ++ operator.symbol ++ " " ++ left.prefixForm ++ " " ++ right.prefixForm ++ ")"
  | grouping inner => "(grouping " ++ inner.prefixForm ++ ")"
  | call callee arguments =>
    "(call " ++ " ".intercalate (callee.prefixForm :: prefixForms arguments) ++ ")"
  | expression inner => inner.prefixForm ++ ";"
  | print inner => "(print " ++ inner.prefixForm ++ ");"
  | declare name none => "(var " ++ name ++ ");"
  | declare name (some initializer) => "(var " ++ name ++ " " ++ initializer.prefixForm ++ ");"
  | block statements => "\x7b" ++ String.join (prefixForms statements) ++ "\x7d"
  | choice condition thenBranch none =>
    "(if " ++ condition.prefixForm ++ " " ++ thenBranch.prefixForm ++ ")"
  | choice condition thenBranch (some elseBranch) =>
    "(if " ++ condition.prefixForm ++ " " ++ thenBranch.prefixForm ++ " " ++
      elseBranch.prefixForm ++ ")"
  | loop condition body =>
    "(while " ++ condition.prefixForm ++ " \x7b" ++ String.join (prefixForms body) ++ "\x7d)"
  | foreign => ""

def prefixForms : List Node → List String
  | [] => []
  | node :: rest => node.prefixForm :: prefixForms rest

end

def detail : Node → String
  | literal value => "(" ++ value.source ++ ")"
  | identifier name | assign name _ | declare name _ => "(" ++ name ++ ")"
  | unary operator _ | binary _ operator _ | logical _ operator _ => "(" ++ operator.symbol ++ ")"
  | _ => ""

def outlineLine (indent : Nat) (node : Node) : String :=
  String.ofList (List.replicate (2 * indent) ' ') ++ node.label ++ node.detail ++ "\n"

mutual

def outline (indent : Nat) : Node → String
  | node@(literal _) | node@(identifier _) | node@foreign | node@(declare _ none) =>
    outlineLine indent node
  | node@(assign _ inner) | node@(unary _ inner) | node@(grouping inner) | node@(expression inner)
  | node@(print inner) | node@(declare _ (some inner)) =>
    outlineLine indent node ++ inner.outline (indent + 1)
  | node@(binary left _ right) | node@(logical left _ right) =>
    outlineLine indent node ++ left.outline (indent + 1) ++ right.outline (indent + 1)
  | node@(call callee arguments) =>
    outlineLine indent node ++ callee.outline (indent + 1) ++ outlines (indent + 1) arguments
  | node@(block statements) => outlineLine indent node ++ outlines (indent + 1) statements
  | node@(choice condition thenBranch none) =>
    outlineLine indent node ++ condition.outline (indent + 1) ++ thenBranch.outline (indent + 1)
  | node@(choice condition thenBranch (some elseBranch)) =>
    outlineLine indent node ++ condition.outline (indent + 1) ++ thenBranch.outline (indent + 1) ++
      elseBranch.outline (indent + 1)
  | node@(loop condition body) =>
    outlineLine indent node ++ condition.outline (indent + 1) ++ outlines (indent + 1) body

def outlines (indent : Nat) : List Node → String
  | [] => ""
  | node :: rest => node.outline indent ++ outlines indent rest

end

end Lox.Node
