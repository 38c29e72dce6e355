import Lox.Number.Decimal
import Lox.Text.Line

namespace Lox.Diagnostic

def lineLabel (number : Nat) : List Char :=
  let written := digits number
  List.replicate (4 - written.length) ' ' ++ written ++ ": ".toList

def caretLine (column : Int) : List Char :=
  List.replicate (6 + (column - 1).toNat) ' ' ++ "^ Error here".toList

/-- The lines at most `around` lines away from a line, each with its number. A positive column of
that line is marked by a caret. -/
def excerpt (source : List Char) (line column around : Int) : String :=
  let shown := (Text.lines source).zipIdx 1 |>.flatMap fun (text, number) =>
    if line - around ≤ number ∧ number ≤ line + around then
      (lineLabel number ++ text) :: if number = line ∧ 0 < column then [caretLine column] else []
    else []
  String.ofList (List.intercalate ['\n'] shown)

def columnOf (source : List Char) (line : Int) (lexeme : Option String) : Nat :=
  match lexeme with
  | none => 0
  | some lexeme =>
    if lexeme.isEmpty ∨ line < 1 then 0
    else
      match (Text.lines source)[(line - 1).toNat]? with
      | none => 0
      | some text => ((Text.find? lexeme.toList text).map (· + 1)).getD 0

def quoted (lexeme : String) : String :=
  if lexeme.isEmpty then "end of input" else "'" ++ lexeme ++ "'"

def advice (message : String) (near : Option String) : List String :=
  [(Text.contains message "';'", "Statements and declarations end with ';'"),
   (Text.contains message "Invalid assignment target",
     "Only a variable name can appear on the left of '='"),
   (Text.contains message "'\x7d'" && near == some "end of input",
     "Check that every '\x7b' has a matching '\x7d'"),
   (Text.contains message "')'", "Check that every '(' has a matching ')'"),
   (Text.contains message "Unterminated string", "Close the string with '\"'")].filterMap
    fun (applies, text) => if applies then some text else none

structure Report where
  stage : String
  line : Int
  near : Option String
  message : String
  excerpt : Option String
  advice : List String

def optional (part : Option String) (shape : String → String) : String :=
  match part with
  | some text => if text.isEmpty then "" else shape text
  | none => ""

def Report.text (report : Report) : String :=
  report.stage ++ " error at line " ++ toString report.line ++
    optional report.near (" near " ++ ·) ++ ": " ++ report.message ++
    optional report.excerpt ("\n" ++ ·) ++
    if report.advice.isEmpty then ""
    else "\n  Suggestions:" ++ String.join (report.advice.map ("\n    - " ++ ·))

end Lox.Diagnostic
