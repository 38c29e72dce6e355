import Lox.Number.Decimal

namespace Lox

namespace Token

inductive Kind where
  | leftParen | rightParen | leftBrace | rightBrace | comma | dot | minus | plus | semicolon
  | star | slash | bang | bangEqual | equal | equalEqual | greater | greaterEqual | less
  | lessEqual
  | andWord | classWord | elseWord | falseWord | funWord | forWord | ifWord | nilWord | orWord
  | printWord | returnWord | superWord | thisWord | trueWord | varWord | whileWord
  | identifier (name : String) | string (text : String) | number (value : Number)
  | endOfInput
  | other (name : String)
  deriving DecidableEq

namespace Kind

def name : Kind → String
  | leftParen => "LEFT_PAREN"
  | rightParen => "RIGHT_PAREN"
  | leftBrace => "LEFT_BRACE"
  | rightBrace => "RIGHT_BRACE"
  | comma => "COMMA"
  | dot => "DOT"
  | minus => "MINUS"
  | plus => "PLUS"
  | semicolon => "SEMICOLON"
  | star => "STAR"
  | slash => "SLASH"
  | bang => "BANG"
  | bangEqual => "BANG_EQUAL"
  | equal => "EQUAL"
  | equalEqual => "EQUAL_EQUAL"
  | greater => "GREATER"
  | greaterEqual => "GREATER_EQUAL"
  | less => "LESS"
  | lessEqual => "LESS_EQUAL"
  | andWord => "AND"
  | classWord => "CLASS"
  | elseWord => "ELSE"
  | falseWord => "FALSE"
  | funWord => "FUN"
  | forWord => "FOR"
  | ifWord => "IF"
  | nilWord => "NIL"
  | orWord => "OR"
  | printWord => "PRINT"
  | returnWord => "RETURN"
  | superWord => "SUPER"
  | thisWord => "THIS"
  | trueWord => "TRUE"
  | varWord => "VAR"
  | whileWord => "WHILE"
  | identifier _ => "IDENTIFIER"
  | string _ => "STRING"
  | number _ => "NUMBER"
  | endOfInput => "EOF"
  | other name => name

def fixed : List Kind :=
  [leftParen, rightParen, leftBrace, rightBrace, comma, dot, minus, plus, semicolon, star, slash,
   bang, bangEqual, equal, equalEqual, greater, greaterEqual, less, lessEqual, andWord, classWord,
   elseWord, falseWord, funWord, forWord, ifWord, nilWord, orWord, printWord, returnWord,
   superWord, thisWord, trueWord, varWord, whileWord, endOfInput]

def ofName (name : String) : Kind :=
  (fixed.find? fun kind => kind.name == name).getD (other name)

end Kind

def keywords : List (String × Kind) :=
  [("and", .andWord), ("class", .classWord), ("else", .elseWord), ("false", .falseWord),
   ("fun", .funWord), ("for", .forWord), ("if", .ifWord), ("nil", .nilWord), ("or", .orWord),
   ("print", .printWord), ("return", .returnWord), ("super", .superWord), ("this", .thisWord),
   ("true", .trueWord), ("var", .varWord), ("while", .whileWord)]

def symbols : List (String × Kind) :=
  [("!=", .bangEqual), ("==", .equalEqual), (">=", .greaterEqual), ("<=", .lessEqual),
   ("(", .leftParen), (")", .rightParen), ("\x7b", .leftBrace), ("\x7d", .rightBrace),
   (",", .comma), (".", .dot), ("-", .minus), ("+", .plus), (";", .semicolon), ("*", .star),
   ("/", .slash), ("!", .bang), ("=", .equal), (">", .greater), ("<", .less)]

end Token

structure Token where
  kind : Token.Kind
  lexeme : String
  line : Int
  deriving DecidableEq

namespace Token

def endOfInput (line : Int) : Token := ⟨.endOfInput, "", line⟩

def isEnd (token : Token) : Bool := token.kind = .endOfInput

def describe (token : Token) : String :=
  let literal :=
    match token.kind with
    | .number value => value.display
    | .string text => text
    | _ => "null"
  token.kind.name ++ " " ++ token.lexeme ++ " " ++ literal

end Token
end Lox
