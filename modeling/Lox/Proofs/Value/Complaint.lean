import Lox.Scope.Basic
import Lox.Value.Operation

namespace Lox

inductive RuntimeError.Operational : RuntimeError → Prop where
  | arithmetic (operator : Operator) (left right : Value) : Operational (.arithmetic operator left right)
  | comparison (operator : Operator) (left right : Value) : Operational (.comparison operator left right)
  | append (left right : Value) : Operational (.append left right)
  | incomparable (left right : Value) : Operational (.incomparable left right)
  | negation (value : Value) : Operational (.negation value)
  | unaryOperator (operator : Operator) : Operational (.unaryOperator operator)
  | binaryOperator (operator : Operator) : Operational (.binaryOperator operator)

namespace Value

open RuntimeError (Operational)

variable {operator : Operator} {x y : Value} {error : RuntimeError}

theorem arithmetic_operational {apply : Number → Number → Number}
    (failed : arithmetic operator apply x y = .error error) : error.Operational := by
  cases x <;> cases y <;> cases failed <;> exact .arithmetic _ _ _

theorem comparison_operational {holds : Number → Number → Bool}
    (failed : comparison operator holds x y = .error error) : error.Operational := by
  cases x <;> cases y <;> cases failed <;> exact .comparison _ _ _

theorem add_operational (failed : add x y = .error error) : error.Operational := by
  cases x with
  | string text => cases y <;> cases failed <;> exact .append _ _
  | _ => cases y <;> cases failed <;> exact .arithmetic _ _ _

theorem equality_operational {equal : Bool → Bool} (failed : equality equal x y = .error error) :
    error.Operational := by
  rw [equality] at failed
  split at failed <;> cases failed
  exact .incomparable x y

theorem binary_operational (failed : x.binary operator y = .error error) : error.Operational := by
  cases operator with
  | plus => exact add_operational failed
  | minus | star | slash => exact arithmetic_operational failed
  | equalEqual | bangEqual => exact equality_operational failed
  | less | greater | lessEqual | greaterEqual => exact comparison_operational failed
  | equal | bang | and | or =>
    cases failed
    exact .binaryOperator _

theorem unary_operational (failed : x.unary operator = .error error) : error.Operational := by
  cases operator with
  | bang => cases failed
  | minus => cases x <;> cases failed <;> exact .negation _
  | _ =>
    cases failed
    exact .unaryOperator _

end Value

theorem Chain.lookup_complaint {name : String} {chain : Chain} {error : RuntimeError}
    (failed : chain.lookup name = .error error) :
    error = .unknownName name ∨ error = .uninitialized name := by
  induction chain with
  | nil =>
    cases failed
    exact .inl rfl
  | cons bindings outer ih =>
    rw [Chain.lookup] at failed
    split at failed
    · cases failed
    · cases failed
      exact .inr rfl
    · exact ih failed

end Lox
