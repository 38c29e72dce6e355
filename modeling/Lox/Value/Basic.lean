import Lox.Number.Decimal

namespace Lox

inductive Value where
  | number (value : Number)
  | string (text : String)
  | boolean (truth : Bool)
  | nil
  | other (kind : String)
  deriving DecidableEq

namespace Value

def quote (text : String) : String := "\"" ++ text ++ "\""

def display : Value → String
  | number x => x.display
  | string text => text
  | boolean truth => if truth then "true" else "false"
  | nil => "nil"
  | other kind => "<" ++ kind ++ ">"

def describe : Value → String
  | string text => quote text
  | value => value.display

def source : Value → String
  | number x => x.source
  | string text => quote text
  | boolean truth => if truth then "true" else "false"
  | nil | other _ => "nil"

def truthy : Value → Bool
  | boolean truth => truth
  | nil => false
  | _ => true

def known : Value → Bool
  | other _ => false
  | _ => true

def agrees : Value → Value → Bool
  | number x, number y => x.equal y
  | x, y => x = y

end Value
end Lox
