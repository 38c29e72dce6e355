import Lox.Diagnostic
import Lox.Token.Basic

namespace Lox

inductive Complaint where
  /-- the text names what should stand at this place -/
  | expected (what : String)
  | invalidTarget
  | tooManyArguments
  | tooDeep
  | endMissing
  | custom (message : String)
  deriving DecidableEq

def Complaint.message : Complaint → String
  | expected what => "Expected " ++ what
  | invalidTarget => "Invalid assignment target"
  | tooManyArguments => "Can't have more than 255 arguments"
  | tooDeep => "Expression nested too deeply"
  | endMissing => "Token stream must end with an EOF token"
  | custom message => message

/-- `got` is the offending lexeme, empty at the end of the input. -/
structure SyntaxError where
  complaint : Complaint
  line : Int
  got : Option String
  excerpt : Option String
  advice : List String
  deriving DecidableEq

namespace SyntaxError

def ofComplaint (complaint : Complaint) (line : Int) (got : Option String) : SyntaxError :=
  ⟨complaint, line, got, none, []⟩

def atToken (complaint : Complaint) (token : Token) : SyntaxError :=
  ofComplaint complaint token.line token.lexeme

def endMissing : SyntaxError := ofComplaint .endMissing 0 none

def message (error : SyntaxError) : String := error.complaint.message

def near (error : SyntaxError) : Option String := error.got.map Diagnostic.quoted

def text (error : SyntaxError) : String :=
  Diagnostic.Report.text
    ⟨"Parse", error.line, error.near, error.message, error.excerpt, error.advice⟩

/-- The error with an excerpt of the source; the caret stands where the lexeme first occurs on the
line. Advice that is already there is kept. -/
def inSource (error : SyntaxError) (source : List Char) : SyntaxError :=
  let column := Diagnostic.columnOf source error.line error.got
  { error with
    excerpt := Diagnostic.excerpt source error.line column 2
    advice :=
      if error.advice.isEmpty then Diagnostic.advice error.message error.near else error.advice }

end SyntaxError
end Lox
