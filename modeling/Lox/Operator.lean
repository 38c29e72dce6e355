namespace Lox

inductive Operator where
  | equal | minus | plus | star | slash | bang | bangEqual | equalEqual | greater | greaterEqual
  | less | lessEqual | and | or
  deriving DecidableEq

namespace Operator

def symbol : Operator → String
  | equal => "="
  | minus => "-"
  | plus => "+"
  | star => "*"
  | slash => "/"
  | bang => "!"
  | bangEqual => "!="
  | equalEqual => "=="
  | greater => ">"
  | greaterEqual => ">="
  | less => "<"
  | lessEqual => "<="
  | and => "and"
  | or => "or"

def all : List Operator :=
  [equal, minus, plus, star, slash, bang, bangEqual, equalEqual, greater, greaterEqual, less,
   lessEqual, and, or]

def ofSymbol? (symbol : String) : Option Operator :=
  all.find? fun operator => operator.symbol == symbol

end Operator
end Lox
