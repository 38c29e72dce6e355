import Lox.Node.Basic
import Lox.SyntaxError

/-!
Parsers read tokens from the front of a list. The end token is never passed, so the tokens that
stand after the first one play no part, and a list that has run out reads as its end.
-/
namespace Lox.Grammar

/-- Why reading stopped: a complaint, with the tokens from the offending one on, or rules nested
beyond the limit. -/
inductive Fault where
  | rejected (complaint : Complaint) (rest : List Token)
  | tooDeep
  deriving DecidableEq

abbrev Parser := EStateM Fault (List Token)

def front : List Token → Token
  | [] => Token.endOfInput 0
  | token :: _ => token

def peek : Parser Token := return front (← get)

def atEnd : Parser Bool := return (← peek).isEnd

def advance : Parser Token := do
  let token ← peek
  if token.isEnd then return token
  else do
    modify List.tail
    return token

def acceptIf (asked : Token.Kind → Bool) : Parser (Option Token) := do
  if asked (← peek).kind then return some (← advance) else return none

def accept (kind : Token.Kind) : Parser Bool :=
  return (← acceptIf (· = kind)).isSome

def reject {α : Type} (complaint : Complaint) : Parser α := do
  throw (.rejected complaint (← get))

def requireIf (asked : Token.Kind → Bool) (complaint : Complaint) : Parser Token := do
  match ← acceptIf asked with
  | some token => return token
  | none => reject complaint

def require (kind : Token.Kind) (what : String) : Parser Unit := do
  let _ ← requireIf (· = kind) (.expected what)

def requireName (what : String) : Parser String := do
  match (← peek).kind with
  | .identifier name => do
    let _ ← advance
    return name
  | _ => reject (.expected what)

/-- Applies a parser to what it last returned, until it declines. Each application passes a token,
so there are no more of them than there are tokens in `bound`. -/
def iterate {α : Type} (more : α → Parser (Option α)) : (bound : List Token) → α → Parser α
  | [], value => return value
  | _ :: bound, value => do
    match ← more value with
    | some next => iterate more bound next
    | none => return value

def repeated {α : Type} (more : α → Parser (Option α)) (value : α) : Parser α := do
  iterate more (← get) value

def itemsUntil {α : Type} (ends : Token.Kind → Bool) (item : Parser α) :
    (bound : List Token) → Parser (List α)
  | [] => return []
  | _ :: bound => do
    if ends (← peek).kind then return []
    else do
      let first ← item
      let others ← itemsUntil ends item bound
      return first :: others

def items {α : Type} (ends : Token.Kind → Bool) (item : Parser α) : Parser (List α) := do
  itemsUntil ends item (← get)

end Lox.Grammar
