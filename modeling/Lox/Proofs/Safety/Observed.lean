import Lox.Proofs.Run.Recast

/-!
Runs and what is to be seen of them from one moment to the next. An observed run is a run together
with the values that its expressions have, the values that it prints, and the scopes after each
change of them. It carries the proof that no change is left out: the scopes that are seen follow one
another by single changes. Without its sights an observed program is the program:
`observedExecuteAll_run`.
-/
namespace Lox

inductive Sight where
  /-- an expression has a value -/
  | produced (value : Value)
  /-- a value is printed -/
  | printed (value : Value)
  /-- the scopes have been changed -/
  | scopes (chain : Chain)

inductive Chain.Change : Chain → Chain → Prop where
  | defined (chain : Chain) (name : String) (value : Option Value) :
    Change chain (chain.define name value)
  | assigned {chain changed : Chain} {name : String} {value : Value} :
    chain.assign? name value = some changed → Change chain changed
  | entered (chain : Chain) : Change chain ([] :: chain)
  | left (chain : Chain) : Change chain chain.tail

/-- The scopes that are seen lead from the first ones to the last ones, change by change. -/
inductive Trail : Chain → List Sight → Chain → Prop where
  | done (chain : Chain) : Trail chain [] chain
  | produced {first last : Chain} {sights : List Sight} (value : Value) :
    Trail first sights last → Trail first (.produced value :: sights) last
  | printed {first last : Chain} {sights : List Sight} (value : Value) :
    Trail first sights last → Trail first (.printed value :: sights) last
  | changed {first next last : Chain} {sights : List Sight} :
    Chain.Change first next → Trail next sights last → Trail first (.scopes next :: sights) last

theorem Trail.append {first middle last : Chain} {sights others : List Sight}
    (trail : Trail first sights middle) (further : Trail middle others last) :
    Trail first (sights ++ others) last := by
  induction trail with
  | done chain => exact further
  | produced value _ ih => exact .produced value (ih further)
  | printed value _ ih => exact .printed value (ih further)
  | changed change _ ih => exact .changed change (ih further)

structure Observed (α : Type) where
  run : Run α
  sights : Context → World → List Sight
  trail : ∀ context world,
    Trail world.chain (sights context world) (worldAfter (run context world)).chain

namespace Observed

variable {α β : Type}

def ofRun (run : Run α)
    (still : ∀ context world, (worldAfter (run context world)).chain = world.chain) : Observed α where
  run := run
  sights _ _ := []
  trail context world := by
    rw [still]
    exact .done _

def later (next : α → Context → World → List Sight) (context : Context) :
    EStateM.Result Failure World α → List Sight
  | .ok value world => next value context world
  | .error _ _ => []

def bind (first : Observed α) (next : α → Observed β) : Observed β where
  run := first.run >>= fun value => (next value).run
  sights context world := first.sights context world ++
    later (fun value => (next value).sights) context (first.run context world)
  trail context world := by
    have begun := first.trail context world
    simp only [Bind.bind, ReaderT.bind, EStateM.bind]
    cases result : first.run context world with
    | ok value middle =>
      rw [result] at begun
      exact begun.append ((next value).trail context middle)
    | error failure after =>
      rw [result] at begun
      exact begun.append (.done _)

instance : Monad Observed where
  pure value := ofRun (pure value) fun _ _ => rfl
  bind := bind

def throw (failure : Failure) : Observed α := ofRun (MonadExcept.throw failure) fun _ _ => rfl

def producing (observed : Observed Value) : Observed Value where
  run := observed.run
  sights context world := observed.sights context world ++
    later (fun value _ _ => [.produced value]) context (observed.run context world)
  trail context world := by
    have same := observed.trail context world
    cases result : observed.run context world with
    | ok value after =>
      rw [result] at same
      exact same.append (.produced value (.done _))
    | error failure after =>
      rw [result] at same
      exact same.append (.done _)

def nested (cost : Nat) (observed : Observed α) : Observed α where
  run := Run.nested cost observed.run
  sights context world :=
    if cost ≤ context.depth then
      observed.sights { context with depth := context.depth - cost } world
    else []
  trail context world := by
    simp only [Run.nested]
    split
    · exact observed.trail _ world
    · exact .done _

def report (activity label : String) : Observed Unit :=
  ofRun (Run.report activity label) fun context world => by
    rw [Run.report]
    split <;> rfl

def lookup (name : String) : Observed Value :=
  ofRun (Run.lookup name) fun context world => by
    rw [Run.lookup_eq]
    cases world.chain.lookup name <;> rfl

def print (value : Value) : Observed Unit where
  run := Run.print value.display
  sights _ _ := [.printed value]
  trail _ world := .printed value (.done world.chain)

def define (name : String) (value : Option Value) : Observed Unit where
  run := Run.define name value
  sights _ world := [.scopes (world.chain.define name value)]
  trail _ world := .changed (.defined world.chain name value) (.done _)

def assign (name : String) (value : Value) : Observed Unit where
  run := Run.assign name value
  sights _ world := ((world.chain.assign? name value).map Sight.scopes).toList
  trail context world := by
    rw [Run.assign_eq]
    cases found : world.chain.assign? name value with
    | none => exact .done world.chain
    | some changed => exact .changed (.assigned found) (.done changed)

def inScope (observed : Observed α) : Observed α where
  run := Run.inScope observed.run
  sights context world := .scopes (Run.enter world).chain ::
    (observed.sights context (Run.enter world) ++
      [.scopes (worldAfter (observed.run context (Run.enter world))).chain.tail])
  trail context world := by
    have inner := observed.trail context (Run.enter world)
    have left : (worldAfter (Run.inScope observed.run context world)).chain =
        (worldAfter (observed.run context (Run.enter world))).chain.tail := by
      rw [Run.inScope]
      cases observed.run context (Run.enter world) <;> rfl
    rw [left]
    exact .changed (.entered world.chain) (inner.append (.changed (.left _) (.done _)))

def limited (steps : Limits → Observed α) : Observed α where
  run context := (steps context.limits).run context
  sights context := (steps context.limits).sights context
  trail context := (steps context.limits).trail context

instance : Machine Observed where
  throw := throw
  nested := nested
  inScope := inScope
  limited := limited
  within _ observed := observed
  producing := producing
  report := report
  lookup := lookup
  define := define
  assign := assign
  print := print

@[simp] theorem bind_run (first : Observed α) (next : α → Observed β) :
    (first >>= next).run = first.run >>= fun value => (next value).run := rfl

@[simp] theorem nested_run (cost : Nat) (observed : Observed α) :
    (observed.nested cost).run = Run.nested cost observed.run := rfl

@[simp] theorem inScope_run (observed : Observed α) :
    observed.inScope.run = Run.inScope observed.run := rfl

theorem mirrors : Mirrors fun α (observed : Observed α) run => observed.run = run where
  pure _ := rfl
  bind {_ _ steps run next follow} first later := by
    subst first
    have same : (fun value => (next value).run) = follow := funext later
    subst same
    rfl
  throw _ := rfl
  nested cost inner := congrArg (Run.nested cost) inner
  inScope inner := congrArg Run.inScope inner
  limited inner := funext fun context => congrFun (inner context.limits) context
  within _ inner := inner
  producing inner := inner
  report _ _ := rfl
  lookup _ := rfl
  define _ _ := rfl
  assign _ _ := rfl
  print _ := rfl

end Observed

namespace Node

abbrev observedEvaluate (node : Node) : Observed Value := node.evaluateIn

abbrev observedExecute (node : Node) : Observed Unit := node.executeIn

abbrev observedExecuteAll (nodes : List Node) : Observed Unit := executeAllIn 0 nodes

theorem observedEvaluate_run (node : Node) : node.observedEvaluate.run = node.evaluate :=
  Observed.mirrors.evaluate node

/-- Observing a program changes nothing about what it does. -/
theorem observedExecuteAll_run (nodes : List Node) :
    (observedExecuteAll nodes).run = executeAll nodes :=
  Observed.mirrors.executeAll 0 nodes

end Node
end Lox
