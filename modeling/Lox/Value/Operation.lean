import Lox.Number.Arithmetic
import Lox.RuntimeError

namespace Lox.Value

abbrev Result := Except RuntimeError Value

def arithmetic (operator : Operator) (apply : Number → Number → Number) : Value → Value → Result
  | number x, number y => .ok (number (apply x y))
  | x, y => .error (.arithmetic operator x y)

def comparison (operator : Operator) (holds : Number → Number → Bool) : Value → Value → Result
  | number x, number y => .ok (boolean (holds x y))
  | x, y => .error (.comparison operator x y)

def add : Value → Value → Result
  | string x, string y => .ok (string (x ++ y))
  | string x, y => .error (.append (string x) y)
  | x, y => arithmetic .plus Number.add x y

def equality (equal : Bool → Bool) (x y : Value) : Result :=
  if x.known && y.known then .ok (boolean (equal (x.agrees y))) else .error (.incomparable x y)

def binary : Operator → Value → Value → Result
  | .plus => add
  | .minus => arithmetic .minus Number.subtract
  | .star => arithmetic .star Number.multiply
  | .slash => arithmetic .slash Number.divide
  | .equalEqual => equality id
  | .bangEqual => equality not
  | .less => comparison .less Number.less
  | .greater => comparison .greater fun x y => y.less x
  | .lessEqual => comparison .lessEqual Number.atMost
  | .greaterEqual => comparison .greaterEqual fun x y => y.atMost x
  | operator => fun _ _ => .error (.binaryOperator operator)

def negate : Value → Result
  | number x => .ok (number x.negate)
  | x => .error (.negation x)

def unary : Operator → Value → Result
  | .bang => fun x => .ok (boolean !x.truthy)
  | .minus => negate
  | operator => fun _ => .error (.unaryOperator operator)

end Lox.Value
