import Lox.Evaluation

/-!
Programs run in any monad that has the steps of a run. A machine may do more with a step than a run
does: it may keep the place in the program at which the step is taken, or what is to be seen there.
Whatever relates the steps of a machine to those of a run relates whole programs: `Mirrors.evaluate`
and `Mirrors.executeAll`. The induction over trees is made here once.
-/
namespace Lox

/-- The steps that runs are made of. -/
class Machine (m : Type → Type) extends Monad m where
  throw {α : Type} (failure : Failure) : m α
  nested {α : Type} (cost : Nat) (steps : m α) : m α
  inScope {α : Type} (steps : m α) : m α
  /-- the limits, other than the depth, are the same for a whole run -/
  limited {α : Type} (steps : Limits → m α) : m α
  /-- steps in a part of the node, by its number -/
  within {α : Type} (number : Nat) (steps : m α) : m α
  /-- steps that find the value of an expression -/
  producing (steps : m Value) : m Value
  report (activity label : String) : m Unit
  lookup (name : String) : m Value
  define (name : String) (value : Option Value) : m Unit
  assign (name : String) (value : Value) : m Unit
  print (value : Value) : m Unit

namespace Machine

variable {m : Type → Type} [Machine m]

def ofResult {α : Type} : Except RuntimeError α → m α
  | .ok value => return value
  | .error error => throw (.runtime error)

def rounds (condition : m Bool) (body : m Unit) : Nat → m Unit
  | 0 => throw .outOfRounds
  | more + 1 => do
    if ← condition then
      body
      rounds condition body more
    else return ()

def whileTrue (condition : m Bool) (body : m Unit) : m Unit :=
  limited fun limits => rounds condition body limits.rounds

def call (node : Node) : m Value :=
  limited fun limits =>
    if node.height ≤ limits.source then throw (.runtime (.call node)) else throw .tooDeep

instance : Machine Run where
  throw := MonadExcept.throw
  nested := Run.nested
  inScope := Run.inScope
  limited steps context := steps context.limits context
  within _ steps := steps
  producing steps := steps
  report := Run.report
  lookup := Run.lookup
  define := Run.define
  assign := Run.assign
  print value := Run.print value.display

end Machine

namespace Node

variable {m : Type → Type} [Machine m]

def evaluateIn (node : Node) : m Value := Machine.producing <| Machine.nested 1 do
  Machine.report "Evaluating" node.label
  match node with
  | literal value => return value
  | identifier name => Machine.lookup name
  | assign name inner => do
    let value ← Machine.nested 1 (Machine.within 0 inner.evaluateIn)
    Machine.assign name value
    return value
  | unary operator right => do
    let value ← Machine.nested 1 (Machine.within 0 right.evaluateIn)
    Machine.ofResult (value.unary operator)
  | binary left operator right => do
    let value ← Machine.nested 1 (Machine.within 0 left.evaluateIn)
    let other ← Machine.nested 1 (Machine.within 1 right.evaluateIn)
    Machine.ofResult (value.binary operator other)
  | logical left operator right => do
    let value ← Machine.nested 1 (Machine.within 0 left.evaluateIn)
    let later := Machine.nested 1 (Machine.within 1 right.evaluateIn)
    match operator with
    | .and => if value.truthy then later else return value
    | .or => if value.truthy then return value else later
    | _ => Machine.throw (.runtime (.logicalOperator operator))
  | grouping inner => Machine.within 0 inner.evaluateIn
  | call callee arguments => Machine.call (call callee arguments)
  | _ => Machine.throw (.misplaced "expression" node.label)

mutual

def executeIn (node : Node) : m Unit := Machine.nested 1 do
  Machine.report "Executing" node.label
  match node with
  | expression inner => do
    let _ ← Machine.within 0 inner.evaluateIn
  | print inner => do
    let value ← Machine.nested 1 (Machine.within 0 inner.evaluateIn)
    Machine.print value
  | declare name none => Machine.define name none
  | declare name (some initializer) => do
    let value ← Machine.nested 1 (Machine.within 0 initializer.evaluateIn)
    Machine.define name (some value)
  | block statements => Machine.inScope (Machine.nested 2 (executeAllIn 0 statements))
  | choice condition thenBranch elseBranch => do
    let value ← Machine.nested 1 (Machine.within 0 condition.evaluateIn)
    if value.truthy then Machine.nested 1 (Machine.within 1 thenBranch.executeIn)
    else
      match elseBranch with
      | some branch => Machine.nested 1 (Machine.within 2 branch.executeIn)
      | none => return ()
  | loop condition body =>
    let test := do
      let value ← Machine.within 0 condition.evaluateIn
      return value.truthy
    Machine.nested 1 (Machine.whileTrue test (Machine.nested 1 (executeAllIn 1 body)))
  | _ => Machine.throw (.misplaced "statement" node.label)

/-- The statements are parts of one node, numbered from `number` on. -/
def executeAllIn (number : Nat) : List Node → m Unit
  | [] => return ()
  | node :: rest => do
    Machine.within number node.executeIn
    executeAllIn (number + 1) rest

end

end Node

/-- A relation of the steps of a machine to those of a run that all which is made of them is in. -/
structure Mirrors {m : Type → Type} [Machine m] (mirrors : (α : Type) → m α → Run α → Prop) :
    Prop where
  pure : ∀ {α : Type} (value : α), mirrors α (Pure.pure value) (Pure.pure value)
  bind : ∀ {α β : Type} {steps : m α} {run : Run α} {next : α → m β} {follow : α → Run β},
    mirrors α steps run → (∀ value, mirrors β (next value) (follow value)) →
    mirrors β (steps >>= next) (run >>= follow)
  throw : ∀ {α : Type} (failure : Failure), mirrors α (Machine.throw failure) (throw failure)
  nested : ∀ {α : Type} {steps : m α} {run : Run α} (cost : Nat),
    mirrors α steps run → mirrors α (Machine.nested cost steps) (Run.nested cost run)
  inScope : ∀ {α : Type} {steps : m α} {run : Run α},
    mirrors α steps run → mirrors α (Machine.inScope steps) (Run.inScope run)
  limited : ∀ {α : Type} {steps : Limits → m α} {runs : Limits → Run α},
    (∀ limits, mirrors α (steps limits) (runs limits)) →
    mirrors α (Machine.limited steps) fun context => runs context.limits context
  within : ∀ {α : Type} {steps : m α} {run : Run α} (number : Nat),
    mirrors α steps run → mirrors α (Machine.within number steps) run
  producing : ∀ {steps : m Value} {run : Run Value},
    mirrors Value steps run → mirrors Value (Machine.producing steps) run
  report : ∀ activity label,
    mirrors Unit (Machine.report activity label) (Run.report activity label)
  lookup : ∀ name, mirrors Value (Machine.lookup name) (Run.lookup name)
  define : ∀ name value, mirrors Unit (Machine.define name value) (Run.define name value)
  assign : ∀ name value, mirrors Unit (Machine.assign name value) (Run.assign name value)
  print : ∀ value, mirrors Unit (Machine.print value) (Run.print value.display)

namespace Mirrors

variable {m : Type → Type} {mirrors : (α : Type) → m α → Run α → Prop} {α β : Type}

theorem ite {condition : Prop} [Decidable condition] {steps others : m α} {run other : Run α}
    (first : mirrors α steps run) (second : mirrors α others other) :
    mirrors α (if condition then steps else others) (if condition then run else other) := by
  split
  · exact first
  · exact second

variable [Machine m] (related : Mirrors mirrors)
include related

theorem ofResult (result : Except RuntimeError α) :
    mirrors α (Machine.ofResult result) (Run.ofResult result) := by
  cases result with
  | ok value => exact related.pure value
  | error error => exact related.throw (.runtime error)

theorem map {steps : m α} {run : Run α} (change : α → β) (each : mirrors α steps run) :
    mirrors β (steps >>= fun value => Pure.pure (change value)) (change <$> run) := by
  rw [map_eq_pure_bind change run]
  exact related.bind each fun value => related.pure (change value)

theorem rounds {condition : m Bool} {test : Run Bool} {body : m Unit} {step : Run Unit}
    (tests : mirrors Bool condition test) (steps : mirrors Unit body step) (count : Nat) :
    mirrors Unit (Machine.rounds condition body count) (Run.rounds test step count) := by
  induction count with
  | zero => exact related.throw .outOfRounds
  | succ count ih =>
    exact related.bind tests fun _ => ite (related.bind steps fun _ => ih) (related.pure ())

theorem whileTrue {condition : m Bool} {test : Run Bool} {body : m Unit} {step : Run Unit}
    (tests : mirrors Bool condition test) (steps : mirrors Unit body step) :
    mirrors Unit (Machine.whileTrue condition body) (Run.whileTrue test step) :=
  related.limited fun limits => related.rounds tests steps limits.rounds

theorem call (node : Node) : mirrors Value (Machine.call node) (Run.call node) := by
  have same : Run.call node = fun context => (if node.height ≤ context.limits.source
      then MonadExcept.throw (.runtime (.call node)) else MonadExcept.throw .tooDeep : Run Value)
        context := by
    funext context
    rw [Run.call]
    split <;> rfl
  rw [same]
  exact related.limited fun limits => ite (related.throw _) (related.throw _)

theorem reported {steps : m α} {run : Run α} (activity label : String) (each : mirrors α steps run) :
    mirrors α (Machine.nested 1 (Machine.report activity label >>= fun _ => steps))
      (Run.nested 1 (Run.report activity label >>= fun _ => run)) :=
  related.nested 1 (related.bind (related.report activity label) fun _ => each)

theorem evaluated {steps : m Value} {run : Run Value} {label : String}
    (each : mirrors Value steps run) :
    mirrors Value (Machine.producing (Machine.nested 1
      (Machine.report "Evaluating" label >>= fun _ => steps)))
      (Run.nested 1 (Run.report "Evaluating" label >>= fun _ => run)) :=
  related.producing (related.reported _ _ each)

theorem part {steps : m α} {run : Run α} (number : Nat) (each : mirrors α steps run) :
    mirrors α (Machine.nested 1 (Machine.within number steps)) (Run.nested 1 run) :=
  related.nested 1 (related.within number each)

theorem evaluate (node : Node) : mirrors Value node.evaluateIn node.evaluate := by
  match node with
  | .literal value => exact related.evaluated (related.pure value)
  | .identifier name => exact related.evaluated (related.lookup name)
  | .assign name inner =>
    apply related.evaluated
    apply related.bind (related.part 0 (evaluate inner))
    intro value
    exact related.bind (related.assign name value) fun _ => related.pure value
  | .unary operator right =>
    apply related.evaluated
    exact related.bind (related.part 0 (evaluate right)) fun _ => related.ofResult _
  | .binary left operator right =>
    apply related.evaluated
    apply related.bind (related.part 0 (evaluate left))
    intro value
    exact related.bind (related.part 1 (evaluate right)) fun _ => related.ofResult _
  | .logical left operator right =>
    have later := related.part 1 (evaluate right)
    apply related.evaluated
    apply related.bind (related.part 0 (evaluate left))
    intro value
    cases operator with
    | and => exact ite later (related.pure value)
    | or => exact ite (related.pure value) later
    | _ => exact related.throw _
  | .grouping inner => exact related.evaluated (related.within 0 (evaluate inner))
  | .call callee arguments => exact related.evaluated (related.call _)
  | .expression _ | .print _ | .declare _ _ | .block _ | .choice _ _ _ | .loop _ _ | .foreign =>
    exact related.evaluated (related.throw _)

mutual

theorem execute (node : Node) : mirrors Unit node.executeIn node.execute := by
  match node with
  | .expression inner =>
    apply related.reported
    exact related.bind (related.within 0 (related.evaluate inner)) fun _ => related.pure ()
  | .print inner =>
    apply related.reported
    exact related.bind (related.part 0 (related.evaluate inner)) fun _ => related.print _
  | .declare name none => exact related.reported _ _ (related.define name none)
  | .declare name (some initializer) =>
    apply related.reported
    exact related.bind (related.part 0 (related.evaluate initializer)) fun value =>
      related.define name (some value)
  | .block statements =>
    apply related.reported
    exact related.inScope (related.nested 2 (executeAll 0 statements))
  | .choice condition thenBranch none =>
    apply related.reported
    apply related.bind (related.part 0 (related.evaluate condition))
    intro value
    exact ite (related.part 1 (execute thenBranch)) (related.pure ())
  | .choice condition thenBranch (some elseBranch) =>
    apply related.reported
    apply related.bind (related.part 0 (related.evaluate condition))
    intro value
    exact ite (related.part 1 (execute thenBranch)) (related.part 2 (execute elseBranch))
  | .loop condition body =>
    have tests := related.map Value.truthy (related.within 0 (related.evaluate condition))
    apply related.reported
    exact related.nested 1 (related.whileTrue tests (related.nested 1 (executeAll 1 body)))
  | .literal _ | .identifier _ | .assign _ _ | .unary _ _ | .binary _ _ _ | .logical _ _ _
  | .grouping _ | .call _ _ | .foreign =>
    exact related.reported _ _ (related.throw _)

theorem executeAll (number : Nat) (nodes : List Node) :
    mirrors Unit (Node.executeAllIn number nodes) (Node.executeAll nodes) := by
  match nodes with
  | [] => exact related.pure ()
  | node :: rest =>
    exact related.bind (related.within number (execute node)) fun _ => executeAll (number + 1) rest

end

end Mirrors
end Lox
