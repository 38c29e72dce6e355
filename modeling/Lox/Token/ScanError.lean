import Lox.Diagnostic
import Lox.Token.Scan

namespace Lox

structure ScanError where
  source : List Char
  offset : Nat
  deriving DecidableEq

namespace ScanError

def before (error : ScanError) : List Char := error.source.take error.offset

def got (error : ScanError) : String :=
  match error.source[error.offset]? with
  | some c => String.singleton c
  | none => ""

def message (error : ScanError) : String :=
  match error.source[error.offset]? with
  | some c =>
    if c = '\x22' then "Unterminated string"
    else "Unexpected character '" ++ String.singleton c ++ "'"
  | none => "Unexpected end of input"

def line (error : ScanError) : Nat := Text.lineAfter error.before

def column (error : ScanError) : Nat :=
  error.offset - error.before.length + Text.lineOffset error.before + 1

def excerpt (error : ScanError) : String :=
  Diagnostic.excerpt error.source error.line error.column 2

def text (error : ScanError) : String :=
  let near := Diagnostic.quoted error.got
  Diagnostic.Report.text
    ⟨"Scan", error.line, near, error.message, error.excerpt,
      Diagnostic.advice error.message near⟩

end ScanError

namespace Token

def scan (source : List Char) : Except ScanError (List Token) :=
  (scanFrom 1 source).mapError fun rest => ⟨source, source.length - rest.length⟩

end Token
end Lox
