import Lox.Prompt
import Lox.Text.Quoted
import Lox.Text.Utf8

namespace Lox

/-- What is found at a path. -/
inductive Entry where
  | missing
  | forbidden
  | directory
  | file (bytes : List UInt8)

inductive ReadError where
  | missing (path : String)
  | forbidden (path : String)
  | directory (path : String)
  | undecodable (error : Text.DecodeError)

namespace ReadError

def quotedPath (path : String) : String := String.ofList (Text.quoted path.toList)

def message : ReadError → String
  | missing path => "[Errno 2] No such file or directory: " ++ quotedPath path
  | forbidden path => "[Errno 13] Permission denied: " ++ quotedPath path
  | directory path => "[Errno 21] Is a directory: " ++ quotedPath path
  | undecodable error => error.message

end ReadError

def Entry.text (path : String) : Entry → Except ReadError (List Char)
  | missing => .error (.missing path)
  | forbidden => .error (.forbidden path)
  | directory => .error (.directory path)
  | file bytes =>
    match Text.decode bytes with
    | .ok text => .ok (Text.unifyLines text)
    | .error error => .error (.undecodable error)

/-- How the program ends: it returns, it exits with a status, or something no mode deals with
gets out. -/
inductive Ending where
  | returned
  | exited (status : Nat)
  | escaped (failure : Failure)
  | unread (error : ReadError)

structure Outcome where
  output : String
  errors : String
  ending : Ending

namespace Script

structure Flags where
  showTokens : Bool
  showTree : Bool
  evaluate : Bool
  traced : Bool
  deriving DecidableEq

def statusOfSource : Nat := 65

def statusOfInput : Nat := 66

def statusOfProgram : Nat := 70

def rule : String := String.ofList (List.replicate 70 '=')

def sourceReport (path : String) (error : SourceError) : String :=
  "Error in '" ++ path ++ "':\n" ++ error.text ++ "\n"

def failureReport (path : String) (error : RuntimeError) : String :=
  "\n" ++ rule ++ "\nRuntime Error in '" ++ path ++ "'\n" ++ rule ++ "\n\nError: " ++
    error.message ++ "\n\n" ++ rule ++ "\n\n"

def tokenDump (tokens : List Token) : String :=
  "Tokens:\n" ++ String.join (tokens.map fun token => "\t" ++ token.describe ++ "\n")

def treeDump (limits : Limits) (statements : List Node) : String × Option Failure :=
  let (lines, failure) := Prompt.prefixLines limits "\t" statements
  ("\nParsed AST:\n\n" ++ lines, failure)

def execute (limits : Limits) (path : String) (flags : Flags) (statements : List Node)
    (output errors : String) : Outcome :=
  let step := Session.execute ⟨flags.traced, limits⟩ 0 errors statements ScopeTree.initial
  match step.result with
  | .ok _ => ⟨output ++ step.output, step.trace, .exited 0⟩
  | .error (.failure (.runtime error)) =>
    ⟨output ++ step.output, step.trace ++ failureReport path error, .exited statusOfProgram⟩
  | .error (.source error) =>
    ⟨output ++ step.output, step.trace ++ sourceReport path error, .exited statusOfSource⟩
  | .error (.failure failure) => ⟨output ++ step.output, step.trace, .escaped failure⟩

def run (limits : Limits) (path : String) (flags : Flags) (source : List Char) : Outcome :=
  match Source.tokens source with
  | .error error => ⟨"", sourceReport path error, .exited statusOfSource⟩
  | .ok tokens =>
    let tokenDump := if flags.showTokens then tokenDump tokens else ""
    let (trace, result) := Source.statements limits flags.traced source tokens
    match result with
    | .error error => ⟨tokenDump, trace ++ sourceReport path error, .exited statusOfSource⟩
    | .ok statements =>
      let (treeDump, failure) :=
        if flags.showTree then treeDump limits statements else ("", none)
      match failure with
      | some failure => ⟨tokenDump ++ treeDump, trace, .escaped failure⟩
      | none =>
        if flags.evaluate then
          execute limits path flags statements (tokenDump ++ treeDump) trace
        else ⟨tokenDump ++ treeDump, trace, .exited 0⟩

def runEntry (limits : Limits) (path : String) (flags : Flags) (entry : Entry) : Outcome :=
  match entry.text path with
  | .ok source => run limits path flags source
  | .error (.missing _) =>
    ⟨"", "Error: Script file '" ++ path ++ "' not found\n" ++
      "  Hint: Check the file path and make sure the file exists\n", .exited statusOfInput⟩
  | .error (.forbidden _) =>
    ⟨"", "Error: Permission denied reading '" ++ path ++ "'\n", .exited statusOfInput⟩
  | .error (.undecodable error) =>
    ⟨"", "Error: Cannot decode file '" ++ path ++ "': " ++ error.message ++ "\n" ++
      "  Hint: Make sure the file is a text file with UTF-8 encoding\n", .exited statusOfInput⟩
  | .error error => ⟨"", "", .unread error⟩

def statements (limits : Limits) (path : String) (entry : Entry) :
    Except ReadError (Except SourceError (List Node)) :=
  (entry.text path).map (Source.program limits)

end Script
end Lox
