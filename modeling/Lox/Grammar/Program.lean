import Lox.Grammar.Rule

namespace Lox.Grammar

/-- How far a program was read: its statements, the tokens left, and why it was not read to the
end, if it was not. -/
structure Reading where
  statements : List Node
  rest : List Token
  fault : Option Fault

def Fault.settle (rest : List Token) : Fault → Fault
  | tooDeep => rejected .tooDeep rest
  | fault => fault

/-- Declarations up to the end, at most one for each token in `bound`. A statement that is not
`plain` counts as nested too deeply. -/
def declarations (limit : Nat) (plain : Node → Bool) : (bound rest : List Token) → Reading
  | [], rest => ⟨[], rest, none⟩
  | _ :: bound, rest =>
    if (front rest).isEnd then ⟨[], rest, none⟩
    else
      match parse limit .declaration rest with
      | .error fault left => ⟨[], left, some (fault.settle left)⟩
      | .ok statement left =>
        if plain statement then
          let others := declarations limit plain bound left
          { others with statements := statement :: others.statements }
        else ⟨[], left, some (.rejected .tooDeep left)⟩

def readProgram (limit : Nat) (plain : Node → Bool) (tokens : List Token) : Reading :=
  declarations limit plain tokens tokens

def program (limit : Nat) : Parser (List Node) := fun tokens =>
  let reading := readProgram limit (fun _ => true) tokens
  match reading.fault with
  | none => .ok reading.statements reading.rest
  | some fault => .error fault reading.rest

def settled {α : Type} (parser : Parser α) : Parser α := fun tokens =>
  match parser tokens with
  | .error fault rest => .error (fault.settle rest) rest
  | result => result

def singleExpression (limit : Nat) : Parser Node := do
  let node ← settled (parse limit .expression)
  if ← atEnd then return node else reject (.expected "end of expression")

def Fault.error : Fault → SyntaxError
  | rejected complaint rest => .atToken complaint (front rest)
  | tooDeep => .atToken .tooDeep (front [])

def read {α : Type} (parser : Parser α) (tokens : List Token) : Except SyntaxError α :=
  if tokens.getLast?.any Token.isEnd then
    match parser tokens with
    | .ok value _ => .ok value
    | .error fault _ => .error fault.error
  else .error .endMissing

def parseProgram (limit : Nat) (tokens : List Token) : Except SyntaxError (List Node) :=
  read (program limit) tokens

def parseExpression (limit : Nat) (tokens : List Token) : Except SyntaxError Node :=
  read (singleExpression limit) tokens

end Lox.Grammar
