namespace Lox.Text

def lines (text : List Char) : List (List Char) := text.splitOn '\n'

def lineAfter (before : List Char) : Nat := 1 + before.count '\n'

def lineOffset (before : List Char) : Nat :=
  (before.reverse.takeWhile (· != '\n')).length

def find? (sought : List Char) : List Char → Option Nat
  | [] => if sought.isEmpty then some 0 else none
  | c :: rest =>
    if sought.isPrefixOf (c :: rest) then some 0 else (find? sought rest).map (· + 1)

def contains (text sought : String) : Bool := (find? sought.toList text.toList).isSome

end Lox.Text
