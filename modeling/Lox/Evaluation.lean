import Lox.Limits
import Lox.Scope.Basic
import Lox.Value.Operation

/-!
Running programs. A run changes the scopes it sees, prints, and, when it is traced, reports every
node it comes to. Each step within a step uses up some of the depth that is left, and each round
of a loop one of the rounds that the loop has.
-/
namespace Lox

/-- Why a run stopped before its end. A node may be misplaced: a statement where an expression
has to stand, or the other way round. -/
inductive Failure where
  | runtime (error : RuntimeError)
  | misplaced (role label : String)
  | tooDeep
  | outOfRounds

structure World where
  chain : Chain
  output : String
  trace : String

structure Context where
  traced : Bool
  limits : Limits
  /-- how many more steps may be nested -/
  depth : Nat

abbrev Run := ReaderT Context (EStateM Failure World)

namespace Run

def fail {α : Type} (error : RuntimeError) : Run α := throw (.runtime error)

def ofResult {α : Type} : Except RuntimeError α → Run α
  | .ok value => return value
  | .error error => fail error

def nested {α : Type} (cost : Nat) (run : Run α) : Run α := fun context =>
  if cost ≤ context.depth then run { context with depth := context.depth - cost }
  else throw .tooDeep

def report (activity label : String) : Run Unit := fun context =>
  if context.traced then
    modify fun world => { world with trace := world.trace ++ activity ++ ": " ++ label ++ "\n" }
  else return ()

def print (text : String) : Run Unit :=
  modify fun world => { world with output := world.output ++ text ++ "\n" }

def lookup (name : String) : Run Value := do
  ofResult ((← get).chain.lookup name)

def define (name : String) (value : Option Value) : Run Unit :=
  modify fun world => { world with chain := world.chain.define name value }

def assign (name : String) (value : Value) : Run Unit := do
  let chain ← ofResult ((← get).chain.assign name value)
  modify fun world => { world with chain := chain }

theorem report_eq (activity label : String) (context : Context) (world : World) :
    report activity label context world = .ok ()
      { world with trace := if context.traced then
          world.trace ++ (activity ++ ": " ++ label ++ "\n") else world.trace } := by
  simp only [report, ← String.append_assoc]
  split <;> rfl

theorem lookup_eq (name : String) (context : Context) (world : World) :
    lookup name context world = ofResult (world.chain.lookup name) context world := rfl

theorem assign_eq (name : String) (value : Value) (context : Context) (world : World) :
    assign name value context world =
      match world.chain.assign? name value with
      | some changed => .ok () { world with chain := changed }
      | none => .error (.runtime (.unknownTarget name)) world := by
  have assigned : assign name value context world =
      (ofResult (world.chain.assign name value) >>= fun chain =>
        modify fun world => { world with chain := chain }) context world := rfl
  rw [assigned, Chain.assign]
  cases world.chain.assign? name value <;> rfl

def enter (world : World) : World := { world with chain := [] :: world.chain }

def leave (world : World) : World := { world with chain := world.chain.tail }

def inScope {α : Type} (run : Run α) : Run α := fun context world =>
  match run context (enter world) with
  | .ok value after => .ok value (leave after)
  | .error failure after => .error failure (leave after)

def rounds (condition : Run Bool) (body : Run Unit) : Nat → Run Unit
  | 0 => throw .outOfRounds
  | more + 1 => do
    if ← condition then
      body
      rounds condition body more
    else return ()

def whileTrue (condition : Run Bool) (body : Run Unit) : Run Unit := fun context =>
  rounds condition body context.limits.rounds context

def call (node : Node) : Run Value := fun context =>
  if node.height ≤ context.limits.source then throw (.runtime (.call node)) else throw .tooDeep

end Run

namespace Node

def evaluate (node : Node) : Run Value := .nested 1 do
  Run.report "Evaluating" node.label
  match node with
  | literal value => return value
  | identifier name => Run.lookup name
  | assign name inner => do
    let value ← .nested 1 inner.evaluate
    Run.assign name value
    return value
  | unary operator right => do
    let value ← .nested 1 right.evaluate
    Run.ofResult (value.unary operator)
  | binary left operator right => do
    let value ← .nested 1 left.evaluate
    let other ← .nested 1 right.evaluate
    Run.ofResult (value.binary operator other)
  | logical left operator right => do
    let value ← .nested 1 left.evaluate
    match operator with
    | .and => if value.truthy then .nested 1 right.evaluate else return value
    | .or => if value.truthy then return value else .nested 1 right.evaluate
    | _ => Run.fail (.logicalOperator operator)
  | grouping inner => inner.evaluate
  | call callee arguments => Run.call (call callee arguments)
  | _ => throw (.misplaced "expression" node.label)

mutual

def execute (node : Node) : Run Unit := .nested 1 do
  Run.report "Executing" node.label
  match node with
  | expression inner => do
    let _ ← inner.evaluate
  | print inner => do
    let value ← .nested 1 inner.evaluate
    Run.print value.display
  | declare name none => Run.define name none
  | declare name (some initializer) => do
    let value ← .nested 1 initializer.evaluate
    Run.define name (some value)
  | block statements => .inScope (.nested 2 (executeAll statements))
  | choice condition thenBranch elseBranch => do
    let value ← .nested 1 condition.evaluate
    if value.truthy then .nested 1 thenBranch.execute
    else
      match elseBranch with
      | some branch => .nested 1 branch.execute
      | none => return ()
  | loop condition body =>
    .nested 1 (.whileTrue (Value.truthy <$> condition.evaluate) (.nested 1 (executeAll body)))
  | _ => throw (.misplaced "statement" node.label)

def executeAll : List Node → Run Unit
  | [] => return ()
  | node :: rest => do
    node.execute
    executeAll rest

end

end Node
end Lox
