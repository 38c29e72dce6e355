import Lox.Text.Digit
import Lox.Text.Quoted

/-!
The arguments of the command line. Long options may be shortened as long as they stay unique,
short options may be joined, and no option takes a value. One argument that is no option names the
script; after a separator, all arguments are such.
-/
namespace Lox.CommandLine

inductive Switch where
  | help | interactive | showTokens | showTree | noEvaluation | debug | version
  deriving DecidableEq

def names : List (String × Switch) :=
  [("-h", .help), ("--help", .help), ("-i", .interactive), ("--interactive", .interactive),
   ("-s", .showTokens), ("--show-scan", .showTokens), ("-p", .showTree),
   ("--show-parse", .showTree), ("--no-eval", .noEvaluation), ("--debug", .debug),
   ("--version", .version)]

def Switch.title : Switch → String
  | help => "-h/--help"
  | interactive => "-i/--interactive"
  | showTokens => "-s/--show-scan"
  | showTree => "-p/--show-parse"
  | noEvaluation => "--no-eval"
  | debug => "--debug"
  | version => "--version"

inductive UsageError where
  | ambiguous (argument : String) (matching : List String)
  | unwantedValue (switch : Switch) (value : List Char)
  | unrecognized (arguments : List String)
  deriving DecidableEq

def UsageError.message : UsageError → String
  | ambiguous argument matching =>
    "ambiguous option: " ++ argument ++ " could match " ++ ", ".intercalate matching
  | unwantedValue switch value =>
    "argument " ++ switch.title ++ ": ignored explicit argument " ++
      String.ofList (Text.quoted value)
  | unrecognized arguments => "unrecognized arguments: " ++ " ".intercalate arguments

inductive Shape where
  | plain
  | separator
  | named (switch : Switch) (value : Option (List Char))
  | joined (switch : Switch) (letters : List Char)
  | unknown
  deriving DecidableEq

def isNegativeNumber (text : List Char) : Bool :=
  match text with
  | '-' :: rest =>
    let rest := if rest.getLast? = some '\n' then rest.dropLast else rest
    let whole := rest.takeWhile Text.isDigit
    match rest.dropWhile Text.isDigit with
    | [] => !whole.isEmpty
    | '.' :: fraction => !fraction.isEmpty && fraction.all Text.isDigit
    | _ => false
  | _ => false

def splitValue (text : List Char) : List Char × Option (List Char) :=
  match text.dropWhile (· != '=') with
  | _ :: value => (text.takeWhile (· != '='), some value)
  | [] => (text, none)

def shapeOfPart (argument : String) (text : List Char) : Except UsageError Shape :=
  let (front, value) := splitValue text
  let isLong := "--".toList.isPrefixOf text
  let matching :=
    if isLong then names.filter fun (name, _) => front.isPrefixOf name.toList
    else names.filter fun (name, _) => name.toList = text.take 2
  match matching with
  | [] => .ok (if isNegativeNumber text || text.contains ' ' then .plain else .unknown)
  | [(_, switch)] => .ok (if isLong then .named switch value else .joined switch (text.drop 2))
  | _ => .error (.ambiguous argument (matching.map Prod.fst))

def shape (argument : String) : Except UsageError Shape :=
  let text := argument.toList
  if text.head? != some '-' then .ok .plain
  else
    match names.lookup argument with
    | some switch => .ok (.named switch none)
    | none =>
      if text.length = 1 then .ok .plain
      else
        let (front, value) := splitValue text
        match value, names.lookup (String.ofList front) with
        | some value, some switch =>
          .ok (if front.length = 2 && !value.isEmpty then .joined switch value
            else .named switch (some value))
        | _, _ => shapeOfPart argument text

def shapes : List String → Except UsageError (List (String × Shape))
  | [] => .ok []
  | argument :: rest =>
    if argument = "--" then .ok ((argument, .separator) :: rest.map (·, .plain))
    else do
      let shape ← shape argument
      let others ← shapes rest
      return (argument, shape) :: others

/-- The options that a short option and the letters after it stand for. A letter that stands for
none is taken, with those after it, as a value of the option before it. -/
def cluster (switch : Switch) : List Char → Except UsageError (List Switch)
  | [] => .ok [switch]
  | letter :: rest =>
    match names.lookup (String.ofList ['-', letter]) with
    | none => .error (.unwantedValue switch (letter :: rest))
    | some next => (cluster next rest).map (switch :: ·)

def switches : Shape → Except UsageError (List Switch)
  | .named switch none => .ok [switch]
  | .named switch (some value) => .error (.unwantedValue switch value)
  | .joined switch letters => cluster switch letters
  | .plain | .separator | .unknown => .ok []

def Shape.isUnused : Shape → Bool
  | plain | separator | unknown => true
  | named _ _ | joined _ _ => false

structure Arguments where
  script : Option String
  interactive : Bool
  showTokens : Bool
  showTree : Bool
  evaluate : Bool
  debug : Bool
  deriving DecidableEq

def Arguments.initial : Arguments := ⟨none, false, false, false, true, false⟩

inductive Stop where
  | help
  | version
  | error (error : UsageError)
  deriving DecidableEq

def flip (arguments : Arguments) : List Switch → Except Stop Arguments
  | [] => .ok arguments
  | .help :: _ => .error .help
  | .version :: _ => .error .version
  | .interactive :: rest => flip { arguments with interactive := true } rest
  | .showTokens :: rest => flip { arguments with showTokens := true } rest
  | .showTree :: rest => flip { arguments with showTree := true } rest
  | .noEvaluation :: rest => flip { arguments with evaluate := false } rest
  | .debug :: rest => flip { arguments with debug := true } rest

def takeSwitches (arguments : Arguments) (argument : String) (shape : Shape)
    (others : Arguments → Except Stop (Arguments × List String)) :
    Except Stop (Arguments × List String) := do
  let switches ← (switches shape).mapError .error
  let (arguments, unused) ← others (← flip arguments switches)
  return (arguments, if shape.isUnused then argument :: unused else unused)

def takeRest (arguments : Arguments) : List (String × Shape) →
    Except Stop (Arguments × List String)
  | [] => .ok (arguments, [])
  | (argument, shape) :: rest =>
    takeSwitches arguments argument shape fun arguments => takeRest arguments rest

/-- Options up to the script, the script, and the rest. A separator next to the script is dropped
with it. -/
def takeAll (arguments : Arguments) : List (String × Shape) →
    Except Stop (Arguments × List String)
  | [] | [(_, .separator)] => .ok (arguments, [])
  | (_, .separator) :: (script, _) :: rest
  | (script, .plain) :: (_, .separator) :: rest
  | (script, .plain) :: rest => takeRest { arguments with script := some script } rest
  | (argument, shape) :: rest =>
    takeSwitches arguments argument shape fun arguments => takeAll arguments rest

def parse (arguments : List String) : Except Stop Arguments := do
  let shapes ← (shapes arguments).mapError .error
  let (parsed, unused) ← takeAll .initial shapes
  if unused.isEmpty then return parsed else throw (.error (.unrecognized unused))

end Lox.CommandLine
