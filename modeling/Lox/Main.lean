import Lox.CommandLine.Program

namespace Lox

def readEntry (path : String) : IO Entry := do
  try
    return .file (← IO.FS.readBinFile path).toList
  catch
    | .noFileOrDirectory _ _ _ => return .missing
    | .permissionDenied _ _ _ => return .forbidden
    | .inappropriateType _ _ _ => return .directory
    | error => throw error

def statusOf : Ending → UInt32
  | .returned => 0
  | .exited status => status.toUInt32
  | .escaped _ | .unread _ => 1

def endingReport : Ending → String
  | .escaped (.misplaced role label) => "Unknown " ++ role ++ " type: " ++ label ++ "\n"
  | .escaped .tooDeep => "maximum recursion depth exceeded\n"
  | .escaped .outOfRounds => "maximum number of rounds exceeded\n"
  | .unread error => error.message ++ "\n"
  | .returned | .exited _ | .escaped (.runtime _) => ""

def finish (outcome : Outcome) : IO UInt32 := do
  (← IO.getStdout).putStr outcome.output
  (← IO.getStderr).putStr (outcome.errors ++ endingReport outcome.ending)
  return statusOf outcome.ending

partial def converse (options : Options) (tree : ScopeTree) : IO UInt32 := do
  let output ← IO.getStdout
  output.putStr Prompt.mark
  output.flush
  let line ← (← IO.getStdin).getLine
  if line.isEmpty then finish ⟨Prompt.farewell, "", .returned⟩
  else
    let text := if line.toList.getLast? = some '\n' then line.toList.dropLast else line.toList
    let turn := Prompt.turn options text tree
    match turn.next with
    | .goOn => do
      let _ ← finish ⟨turn.output, turn.trace, .returned⟩
      converse options turn.tree
    | .leave => finish ⟨turn.output, turn.trace, .returned⟩
    | .escape failure => finish ⟨turn.output, turn.trace, .escaped failure⟩

end Lox

def main (arguments : List String) : IO UInt32 := do
  let limits := Lox.Limits.standard
  match Lox.CommandLine.plan arguments with
  | .finished outcome => Lox.finish outcome
  | .script path flags =>
    Lox.finish (Lox.CommandLine.runScript limits path flags (← Lox.readEntry path))
  | .interactive traced => do
    (← IO.getStdout).putStr (Lox.Prompt.banner traced)
    Lox.converse ⟨traced, limits⟩ Lox.ScopeTree.initial
