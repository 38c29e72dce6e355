import Lox.CommandLine.Arguments
import Lox.Script

namespace Lox.CommandLine

def usage : String :=
  "usage: pylox [-h] [-i] [-s] [-p] [--no-eval] [--debug] [--version] [script]\n"

def help : String := usage ++ "
Lox Programming Language - tree-walking interpreter

positional arguments:
  script             Lox script file to execute

options:
  -h, --help         show this help message and exit
  -i, --interactive  Start interactive mode
  -s, --show-scan    Print the token list before parsing
  -p, --show-parse   Print the parsed statements before evaluating
  --no-eval          Stop after scanning and parsing
  --debug            Enable debug output for all stages
  --version          show program's version number and exit

Examples:
  pylox script.lox              # Run a Lox script
  pylox -i                      # Interactive mode
  pylox -s script.lox           # Show tokens, then run
  pylox -p --no-eval script.lox # Show the parsed AST only
  pylox --debug script.lox      # Run with debug tracing on stderr
" ++ "        \n"

inductive History where
  | kept
  | unwritable
  | absent
  deriving DecidableEq

def History.report : History → String
  | unwritable => "Could not save history: [Errno 2] No such file or directory\n"
  | kept | absent => ""

inductive Plan where
  | finished (outcome : Outcome)
  | script (path : String) (flags : Script.Flags)
  | interactive (traced : Bool)

def plan (arguments : List String) : Plan :=
  match parse arguments with
  | .error .help => .finished ⟨help, "", .exited 0⟩
  | .error .version => .finished ⟨Prompt.version ++ "\n", "", .exited 0⟩
  | .error (.error error) =>
    .finished ⟨"", usage ++ "pylox: error: " ++ error.message ++ "\n", .exited 2⟩
  | .ok parsed =>
    match parsed.script with
    | some path =>
      if path.isEmpty then unscripted parsed
      else .script path ⟨parsed.showTokens, parsed.showTree, parsed.evaluate, parsed.debug⟩
    | none => unscripted parsed
where
  unscripted (parsed : Arguments) : Plan :=
    if parsed.interactive || arguments.isEmpty || parsed.debug then .interactive parsed.debug
    else .finished ⟨help, "", .returned⟩

def runScript (limits : Limits) (path : String) (flags : Script.Flags) (entry : Entry) : Outcome :=
  match entry with
  | .missing =>
    ⟨"", "Error: Script file '" ++ path ++ "' does not exist\n", .exited Script.statusOfInput⟩
  | entry => Script.runEntry limits path flags entry

def inputLines (input : List Char) : List (List Char) :=
  let lines := Text.lines input
  if lines.getLast? = some [] then lines.dropLast else lines

def converse (limits : Limits) (traced : Bool) (history : History) (input : List Char) : Outcome :=
  let transcript := Prompt.run ⟨traced, limits⟩ ((inputLines input).map some)
  let output :=
    match transcript.chunks with
    | [] => ""
    | banner :: chunks => banner ++ String.join (chunks.map (Prompt.mark ++ ·))
  ⟨output, transcript.trace ++ history.report,
    (transcript.escaped.map Ending.escaped).getD .returned⟩

structure Surroundings where
  entry : String → Entry
  input : List Char
  history : History

def run (limits : Limits) (surroundings : Surroundings) (arguments : List String) : Outcome :=
  match plan arguments with
  | .finished outcome => outcome
  | .script path flags => runScript limits path flags (surroundings.entry path)
  | .interactive traced => converse limits traced surroundings.history surroundings.input

end Lox.CommandLine
