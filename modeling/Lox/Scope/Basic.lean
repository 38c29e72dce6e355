import Lox.RuntimeError

namespace Lox

/-- Names and what they are bound to; a declared name without a value is not initialized yet. -/
abbrev Bindings := List (String × Option Value)

namespace Bindings

def put (name : String) (value : Option Value) : Bindings → Bindings
  | [] => [(name, value)]
  | (key, old) :: rest =>
    if key = name then (name, value) :: rest else (key, old) :: put name value rest

def declares (name : String) (bindings : Bindings) : Bool := (bindings.lookup name).isSome

theorem lookup_cons (name key : String) (held : Option Value) (rest : Bindings) :
    List.lookup name ((key, held) :: rest) =
      if name = key then some held else List.lookup name rest := by
  rw [List.lookup_cons]
  by_cases same : name = key
  · simp [same]
  · rw [beq_false_of_ne same, if_neg same]

end Bindings

abbrev Chain := List Bindings

namespace Chain

def define (name : String) (value : Option Value) : Chain → Chain
  | [] => []
  | bindings :: outer => bindings.put name value :: outer

def lookup (name : String) : Chain → Except RuntimeError Value
  | [] => .error (.unknownName name)
  | bindings :: outer =>
    match bindings.lookup name with
    | some (some value) => .ok value
    | some none => .error (.uninitialized name)
    | none => lookup name outer

def assign? (name : String) (value : Value) : Chain → Option Chain
  | [] => none
  | bindings :: outer =>
    if bindings.declares name then some (bindings.put name value :: outer)
    else (assign? name value outer).map (bindings :: ·)

def assign (name : String) (value : Value) (chain : Chain) : Except RuntimeError Chain :=
  match chain.assign? name value with
  | some changed => .ok changed
  | none => .error (.unknownTarget name)

end Chain
end Lox
